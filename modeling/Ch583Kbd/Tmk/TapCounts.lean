/-
Ch583Kbd.Tmk.TapCounts — the count of a release says how its press was
executed.

A press that was executed as a tap is closed by a release with a count
above 0. That count gets into the release in two ways: the release is
copied the count of the tapping key when it is processed, or it was marked
in the buffer when it settled the tapping key. `KeyCounts` says of one key
that the pending records with a count are just the marks that are due;
`Counts` adds what holds of the tapping key. A step keeps both if the
release that settles a tapping key is its own (`ownRelease`).
-/
import Ch583Kbd.Tmk.KeyOrder

namespace Ch583Kbd.Tmk

open Ch583Kbd.Lib TappingState

variable {K : Keymap}

/-! ## The last call for a key -/

/-- The last call of `process_action` for a key. -/
def lastOf (k : KeyPos) (handed : List Handed) : Option Handed :=
  handed.reverse.find? fun h => h.before.event.key == k

theorem lastOf_concat (k : KeyPos) (l : List Handed) (e : Handed) :
    lastOf k (l ++ [e]) = if e.before.event.key = k then some e else lastOf k l := by
  rw [lastOf, List.reverse_append, List.reverse_singleton, List.singleton_append, List.find?_cons]
  split
  · next h => rw [if_pos (by simpa using h)]
  · next h => rw [if_neg (by simpa using h)]; rfl

/-- The last call for a key is in the log and is for that key. -/
theorem lastOf_spec {k : KeyPos} {l : List Handed} {e : Handed} (h : lastOf k l = some e) :
    e ∈ l ∧ e.before.event.key = k := by
  have hmem := List.mem_of_find?_eq_some h
  have hkey := List.find?_some h
  exact ⟨List.mem_reverse.mp hmem, by simpa using hkey⟩

/-- The key was pressed, last of all. -/
def Pressed (v : View) (k : KeyPos) : Prop :=
  ∃ e, lastOf k v.handed = some e ∧ e.before.event.pressed = true

/-- The key was pressed, last of all, and the press was executed as a
tap. -/
def Tapped (v : View) (k : KeyPos) : Prop :=
  ∃ e, lastOf k v.handed = some e ∧ e.before.event.pressed = true ∧ e.after.tap.count ≠ 0

theorem Tapped.pressed {v : View} {k : KeyPos} (h : Tapped v k) : Pressed v k := by
  obtain ⟨e, he, hp, -⟩ := h
  exact ⟨e, he, hp⟩

/-- No event of the key after submission `i` has been delivered. -/
def DeliveredUpTo (v : View) (k : KeyPos) (i : Nat) : Prop :=
  ∀ j d, Delivered v j → v.submitted[j]? = some d → d.key = k → j ≤ i

section Handed

variable {v : View} {r t : KeyRecord} {k : KeyPos}

/-- The last call for a key after a record was handed over. -/
theorem lastOf_handThen (hreal : r.event.isNoEvent = false) :
    lastOf k (v.handThen K r t).handed =
      if r.event.key = k then some (v.entry K r) else lastOf k v.handed := by
  rw [handThen_handed r t v hreal, lastOf_concat]
  rfl

theorem lastOf_handThen_self (hreal : r.event.isNoEvent = false) :
    lastOf r.event.key (v.handThen K r t).handed = some (v.entry K r) := by
  rw [lastOf_handThen hreal, if_pos rfl]

theorem lastOf_handThen_of_ne (hreal : r.event.isNoEvent = false) (hne : r.event.key ≠ k) :
    lastOf k (v.handThen K r t).handed = lastOf k v.handed := by
  rw [lastOf_handThen hreal, if_neg hne]

/-- A key is tapped after its press was executed with a count. -/
theorem tapped_handThen_self (hreal : r.event.isNoEvent = false) :
    Tapped (v.handThen K r t) r.event.key ↔
      r.event.pressed = true ∧ (v.hand K r).1.tap.count ≠ 0 := by
  constructor
  · rintro ⟨e, he, hp, hc⟩
    rw [lastOf_handThen_self hreal] at he
    rw [← Option.some.inj he] at hp hc
    exact ⟨hp, hc⟩
  · rintro ⟨hp, hc⟩
    exact ⟨_, lastOf_handThen_self hreal, hp, hc⟩

/-- Whether another key is tapped does not change. -/
theorem tapped_handThen_of_ne (hreal : r.event.isNoEvent = false) (hne : r.event.key ≠ k) :
    Tapped (v.handThen K r t) k ↔ Tapped v k := by
  unfold Tapped
  rw [lastOf_handThen_of_ne hreal hne]

/-- Handing a record over delivers no later event of the key than its own. -/
theorem DeliveredUpTo.handThen {i : Nat} (h : DeliveredUpTo v k i)
    (hreal : r.event.isNoEvent = false)
    (hst : ∀ j, r.origin = some j → v.submitted[j]? = some r.event)
    (hle : r.event.key = k → ∀ j, r.origin = some j → j ≤ i) :
    DeliveredUpTo (v.handThen K r t) k i := by
  intro j d hd hj hk
  rcases (delivered_handThen r t v hreal j).mp hd with hd | ho
  · exact h j d hd hj hk
  · have he : r.event = d := Option.some.inj ((hst j ho).symm.trans hj)
    exact hle (he ▸ hk) j ho

end Handed

/-! ## What is known of a key in a run -/

section Keys

variable {v w : View} {r r' : KeyRecord}

/-- The record in hand is the latest of its key that may be delivered. -/
theorem Ready.deliveredUpTo (hr : Ready v r) (hreal : r.event.isNoEvent = false) {j : Nat}
    (hj : r.origin = some j) : DeliveredUpTo v r.event.key j := by
  obtain ⟨j', hst, hnd⟩ := (hr.inHand hreal).stands
  obtain rfl : j' = j := Option.some.inj (hst.1.symm.trans hj)
  intro m d hd hm hk
  by_contra hlt
  exact hnd (hr.inOrder.delivered hr.core (by omega) hst.2 hm ⟨hreal, hk.symm⟩ hd)

/-- The submission of a key that was pressed last of all. -/
theorem pressed_origin (hc : Core v) {k : KeyPos} {e : Handed} (he : lastOf k v.handed = some e)
    (hp : e.before.event.pressed = true) :
    ∃ i, e.before.origin = some i ∧ v.submitted[i]? = some e.before.event ∧
      e.before.event.OfKey k ∧ Delivered v i := by
  obtain ⟨hmem, hkey⟩ := lastOf_spec he
  obtain ⟨hreal, -, hrel, hsub⟩ := hc.logged e hmem
  cases ho : e.before.origin with
  | none =>
    rw [hrel ho] at hp
    simp at hp
  | some i => exact ⟨i, rfl, hsub i ho, ⟨hreal, hkey⟩, e, hmem, ho⟩

/-- A press whose predecessors of its key are all delivered and which is
not: the key was released last. -/
theorem not_pressed (hr : Ready v r) {k : KeyPos} {i : Nat} {d : KeyEvent}
    (hi : v.submitted[i]? = some d) (hd : d.OfKey k) (hp : d.pressed = true)
    (hnd : ¬Delivered v i)
    (hbefore : ∀ m c, m < i → v.submitted[m]? = some c → c.OfKey k → Delivered v m)
    (hlatest : ∀ e j, lastOf k v.handed = some e → e.before.origin = some j →
      DeliveredUpTo v k j) : ¬Pressed v k := by
  rintro ⟨e, he, hep⟩
  obtain ⟨j, ho, hj, hek, hdel⟩ := pressed_origin hr.core he hep
  rcases Nat.lt_trichotomy i j with hij | rfl | hji
  · exact hnd (hr.inOrder.delivered hr.core hij hi hj ⟨hd.1, hd.2.trans hek.2.symm⟩ hdel)
  · exact hnd hdel
  · -- between the two presses there is a release, delivered after the first
    obtain ⟨m, c, hjm, hmi, hm, hc, -⟩ := hr.alternating.between hji hj hi hek hd
      (hep.trans hp.symm)
    have hle := hlatest e j he ho m c (hbefore m c hmi hm hc) hm hc.2
    omega

/-- A press that is consumed is of a key that was released last. -/
theorem Ready.not_pressed (hr : Ready v r) (h : TapStep K v r true r' w)
    (hp : r.event.isPressed = true)
    (hlatest : ∀ e j, lastOf r.event.key v.handed = some e → e.before.origin = some j →
      DeliveredUpTo v r.event.key j) : ¬Pressed v r.event.key := by
  obtain ⟨hreal, hpr⟩ := r.event.isPressed_iff.mp hp
  obtain ⟨i, hi, hnd⟩ := (hr.inHand hreal).stands
  refine Tmk.not_pressed hr hi.2 ⟨hreal, rfl⟩ hpr hnd (fun m c hmi hm hc => ?_) hlatest
  refine before_inHand (R := sameKey) hr.core hr.accounted (fun hu => ?_)
    (fun x hx hb => hr.oldest h hreal x hx hb.2) i hi.1 m c hmi hm hc
  have hrel := (r.event.isReleased_iff.mp (h.early_of hu).1).2
  rw [hpr] at hrel
  simp at hrel

/-- An undecided tapping key that was not delivered is a key that was
released last. -/
theorem Ready.tapping_not_pressed (hr : Ready v r) (hu : v.undecided = true) {i : Nat}
    (hi : v.tappingKey.origin = some i) (hnd : ¬Delivered v i)
    (hlatest : ∀ e j, lastOf v.tappingKey.event.key v.handed = some e →
      e.before.origin = some j → DeliveredUpTo v v.tappingKey.event.key j) :
    ¬Pressed v v.tappingKey.event.key := by
  obtain ⟨hreal, hpr, -⟩ := undecided_real hu
  obtain ⟨i', hti, -⟩ := hr.core.tapping hreal
  obtain rfl : i' = i := Option.some.inj (hti.1.symm.trans hi)
  refine Tmk.not_pressed hr hti.2 ⟨hreal, rfl⟩ hpr hnd (fun m c hmi hm hc => ?_) hlatest
  exact before_tapping (R := sameKey) hr.core hu hr.inHand hr.accounted
    (fun hu x hx hb => hr.ahead hu x hx hb.1) (fun _ => hr.younger hu) i' hi m c hmi hm hc

end Keys

/-! ## The invariant -/

/-- A pending record of the key with a count above 0 is the mark that is
due: the key was pressed last, and as a tap, and the record is the oldest
of the key. -/
structure KeyCounts (v : View) (P : KeyRecord → Prop) (k : KeyPos) : Prop where
  latest : ∀ e i, lastOf k v.handed = some e → e.before.origin = some i → DeliveredUpTo v k i
  marked : ∀ x, P x → x.event.key = k → x.tap.count ≠ 0 →
    Tapped v k ∧ ∀ y, P y → y.event.key = k → ¬y.origin < x.origin
  tapped : Tapped v k → (v.settled = true ∧ v.tappingKey.event.key = k) ∨
    ∃ x, P x ∧ x.event.key = k ∧ x.tap.count ≠ 0

/-- What holds of every key, and of the tapping key. An undecided one has
been delivered only if its tap was cancelled. -/
structure Counts (v : View) (P : KeyRecord → Prop) : Prop where
  keys : ∀ k, KeyCounts v P k
  upTo : v.undecided = true → ∀ i, v.tappingKey.origin = some i →
    DeliveredUpTo v v.tappingKey.event.key i
  cancelled : v.undecided = true → ∀ i, v.tappingKey.origin = some i → Delivered v i →
    ∃ e, lastOf v.tappingKey.event.key v.handed = some e ∧ e.before.origin = some i ∧
      e.before.event.pressed = true ∧ e.after.tap.count = 0
  settled : v.settled = true → Tapped v v.tappingKey.event.key
  once : v.settled = true → v.tappingKey.tap.count = 1 →
    ∃ x, P x ∧ x.event.key = v.tappingKey.event.key ∧ x.tap.count ≠ 0
  more : v.settled = true → 1 < v.tappingKey.tap.count →
    ∀ x, P x → x.event.key = v.tappingKey.event.key → x.tap.count = 0

/-- The record in hand that settles the tapping key is the oldest of its
key, unless the tap is cancelled. -/
def ownFirstTap (K : Keymap) (r : KeyRecord) (v : View) : Prop :=
  v.undecided = true → v.settledBy r = true →
    (∀ x ∈ v.waitingBuffer, x.event.key = r.event.key → r.origin < x.origin) ∨
      (v.tappingKey.tap.interrupted = true ∧
        (v.act.actionOf K v.tappingKey.event).isModsTapKey = true)

/-- The scan for the record in hand passes over no event of its key. -/
def ownScan (K : Keymap) (r : KeyRecord) (v : View) : Prop :=
  v.undecided = false → r.event.isPressed = true → (v.act.actionOf K r.event).isTap = true →
    v.waitingBuffer.Pairwise fun y x => y.event.key = r.event.key →
      ({ v with tappingKey := r } : View).settledBy x = true →
      ({ v with tappingKey := r } : View).settledBy y = true

/-- The release that settles the tapping key is the next event of its
key. -/
def ownRelease (K : Keymap) : CallRule := fun _ r v => ownFirstTap K r v ∧ ownScan K r v

instance decidableOptionLt (a b : Option Nat) : Decidable (a < b) :=
  inferInstanceAs (Decidable (Option.lt (· < ·) a b))

instance (r : KeyRecord) (v : View) : Decidable (ownFirstTap K r v) :=
  inferInstanceAs (Decidable (_ → _ → _ ∨ _))

instance (r : KeyRecord) (v : View) : Decidable (ownScan K r v) :=
  inferInstanceAs (Decidable (_ → _ → _ → _))

instance (src : Source) (r : KeyRecord) (v : View) : Decidable (ownRelease K src r v) :=
  inferInstanceAs (Decidable (_ ∧ _))

section Frame

variable {v w : View} {P P' : KeyRecord → Prop} {r t : KeyRecord} {k : KeyPos}

/-- Handing a record over changes nothing for another key, if the tapping
key goes on or leaves its mark. -/
theorem KeyCounts.handThen (h : KeyCounts v P k) (hreal : r.event.isNoEvent = false)
    (hne : r.event.key ≠ k) (hst : ∀ j, r.origin = some j → v.submitted[j]? = some r.event)
    (hsub : ∀ x, x.event.key = k → P' x → P x)
    (hkeep : ∀ x, x.event.key = k → x.tap.count ≠ 0 → P x → P' x)
    (hset : v.settled = true → v.tappingKey.event.key = k →
      (v.handThen K r t).settled = true ∧ t.event.key = k) :
    KeyCounts (v.handThen K r t) P' k where
  latest := by
    intro e i he ho
    rw [lastOf_handThen_of_ne hreal hne] at he
    exact (h.latest e i he ho).handThen hreal hst fun hk => absurd hk hne
  marked := by
    intro x hx hk hc
    obtain ⟨ht, hold⟩ := h.marked x (hsub x hk hx) hk hc
    exact ⟨(tapped_handThen_of_ne hreal hne).mpr ht, fun y hy hyk => hold y (hsub y hyk hy) hyk⟩
  tapped := by
    intro ht
    rcases h.tapped ((tapped_handThen_of_ne hreal hne).mp ht) with ⟨hs, hk⟩ | ⟨x, hx, hk, hc⟩
    · exact .inl (hset hs hk)
    · exact .inr ⟨x, hkeep x hk hc hx, hk, hc⟩

/-- Handing a record over keeps the counts of its own key right. -/
theorem keyCounts_handed (hreal : r.event.isNoEvent = false)
    (hst : ∀ j, r.origin = some j → v.submitted[j]? = some r.event)
    (hup : ∀ j, r.origin = some j → DeliveredUpTo v r.event.key j)
    (hmark : ∀ x, P' x → x.event.key = r.event.key → x.tap.count ≠ 0 →
      (r.event.pressed = true ∧ (v.hand K r).1.tap.count ≠ 0) ∧
        ∀ y, P' y → y.event.key = r.event.key → ¬y.origin < x.origin)
    (htap : r.event.pressed = true → (v.hand K r).1.tap.count ≠ 0 →
      ((v.handThen K r t).settled = true ∧ t.event.key = r.event.key) ∨
        ∃ x, P' x ∧ x.event.key = r.event.key ∧ x.tap.count ≠ 0) :
    KeyCounts (v.handThen K r t) P' r.event.key where
  latest := by
    intro e i he ho
    rw [lastOf_handThen_self hreal] at he
    rw [← Option.some.inj he] at ho
    refine (hup i ho).handThen hreal hst fun _ j hj => ?_
    exact Nat.le_of_eq (Option.some.inj (hj.symm.trans ho))
  marked := by
    intro x hx hk hc
    obtain ⟨ht, hold⟩ := hmark x hx hk hc
    exact ⟨(tapped_handThen_self hreal).mpr ht, hold⟩
  tapped := by
    intro ht
    obtain ⟨hp, hc⟩ := (tapped_handThen_self hreal).mp ht
    exact htap hp hc

end Frame

section Step

variable {v w : View} {r r' : KeyRecord}

/-- "ad hoc: set 0 to cancel tap": a modifier tap that was interrupted is left
without a count. -/
theorem tapped_cancelled (hu : v.undecided = true) (hint : v.tappingKey.tap.interrupted = true)
    (hmods : (v.act.actionOf K v.tappingKey.event).isModsTapKey = true) :
    (v.tapped K).tappingKey.tap.count = 0 := by
  obtain ⟨hreal, hp, -⟩ := undecided_real hu
  show ((v.hand K (v.tappingKey.withCount 1)).1).tap.count = 0
  rw [hand_fst, processAction]
  simp [hreal, cancelTap, hmods, hp, hint]

/-- While the tapping key is undecided it is not tapped. -/
theorem Counts.undecided_not_tapped {P : KeyRecord → Prop} (h : Counts v P) (hr : Ready v r)
    (hu : v.undecided = true) : ¬Tapped v v.tappingKey.event.key := by
  intro ht
  obtain ⟨i, hi, -⟩ := hr.core.tapping (undecided_real hu).1
  by_cases hd : Delivered v i
  · obtain ⟨e, he, -, -, hc⟩ := h.cancelled hu i hi.1 hd
    obtain ⟨e', he', -, hc'⟩ := ht
    rw [he] at he'
    rw [← Option.some.inj he'] at hc'
    exact hc' hc
  · exact hr.tapping_not_pressed hu hi.1 hd (h.keys _).latest ht.pressed

theorem interruptedBy_tag (v : View) (e : KeyEvent) :
    (v.interruptedBy e).tappingKey.tag = v.tappingKey.tag := by
  unfold interruptedBy
  dsimp only
  split <;> rfl

theorem interruptedBy_count (v : View) (e : KeyEvent) :
    (v.interruptedBy e).tappingKey.tap.count = v.tappingKey.tap.count := by
  unfold interruptedBy
  dsimp only
  split <;> rfl

/-- A release that is consumed with its own count has the count of its
press. -/
theorem Counts.release_agrees (h : Counts v (pending v r)) (hr : Ready v r)
    (hstep : TapStep K v r true r' w) (hreal : r.event.isNoEvent = false)
    (hset : v.settled = true → r.event.key ≠ v.tappingKey.event.key) :
    r.tap.count ≠ 0 ↔ Tapped v r.event.key := by
  constructor
  · intro hc
    exact ((h.keys _).marked r (.inr ⟨hreal, rfl⟩) rfl hc).1
  · intro ht
    rcases (h.keys _).tapped ht with ⟨hs, hk⟩ | ⟨x, hx, hk, hc⟩
    · exact absurd hk.symm (hset hs)
    · rcases hx with hx | ⟨-, rfl⟩
      · have hlt := hr.oldest hstep hreal x hx hk
        exact absurd hlt (((h.keys _).marked x (.inl hx) hk hc).2 r (.inr ⟨hreal, rfl⟩) rfl)
      · exact hc

/-- Once the record in hand is consumed nothing marked is left of its
key. -/
theorem Counts.none_marked (h : Counts v (pending v r)) (hr : Ready v r)
    (hstep : TapStep K v r true r' w) (hreal : r.event.isNoEvent = false) :
    ∀ x ∈ v.waitingBuffer, x.event.key = r.event.key → x.tap.count = 0 := by
  intro x hx hk
  by_contra hc
  exact ((h.keys _).marked x (.inl hx) hk hc).2 r (.inr ⟨hreal, rfl⟩) rfl
    (hr.oldest hstep hreal x hx hk)

/-! ## The parts of a step -/

theorem origin_lt_asymm {a b : Option Nat} (h : a < b) : ¬b < a := by
  cases a with
  | none => cases b <;> simp_all
  | some a =>
    cases b with
    | none => simp at h
    | some b =>
      rw [Option.some_lt_some] at h ⊢
      omega

/-- A record that is ready carries the event of its submission. -/
theorem Ready.origin_event (hr : Ready v r) (hreal : r.event.isNoEvent = false) {j : Nat}
    (hj : r.origin = some j) : v.submitted[j]? = some r.event := by
  obtain ⟨i, hi, -⟩ := (hr.inHand hreal).stands
  exact Option.some.inj (hi.1.symm.trans hj) ▸ hi.2

/-- An undecided tapping key carries the event of its submission. -/
theorem Ready.tapping_event (hr : Ready v r) (hu : v.undecided = true) {j : Nat}
    (hj : v.tappingKey.origin = some j) : v.submitted[j]? = some v.tappingKey.event := by
  obtain ⟨i, hi, -⟩ := hr.core.tapping (undecided_real hu).1
  exact Option.some.inj (hi.1.symm.trans hj) ▸ hi.2

theorem settled_of (hreal : v.tappingKey.event.isNoEvent = false)
    (hp : v.tappingKey.event.pressed = true) (hc : v.tappingKey.tap.count ≠ 0) :
    v.settled = true := by
  simp [settled, isTappingPressed, isTapping, hreal, hp, hc]

theorem not_settled_of_undecided (hu : v.undecided = true) : ¬v.settled = true := by
  intro hs
  exact (settled_real hs).2.2 (undecided_real hu).2.2

/-- Handing over the undecided tapping key keeps the counts of every key right. -/
theorem Counts.handTapping (h : Counts v (pending v r)) (hr : Ready v r)
    (hu : v.undecided = true) (n : Nat) (t : KeyRecord) {P' : KeyRecord → Prop}
    (hsub : ∀ x, x.event.key ≠ v.tappingKey.event.key → (P' x ↔ pending v r x))
    (hmark : ∀ x, P' x → x.event.key = v.tappingKey.event.key → x.tap.count ≠ 0 →
      (v.hand K (v.tappingKey.withCount n)).1.tap.count ≠ 0 ∧
        ∀ y, P' y → y.event.key = v.tappingKey.event.key → ¬y.origin < x.origin)
    (htap : (v.hand K (v.tappingKey.withCount n)).1.tap.count ≠ 0 →
      (v.handThen K (v.tappingKey.withCount n) t).settled = true ∧
        t.event.key = v.tappingKey.event.key) (k : KeyPos) :
    KeyCounts (v.handThen K (v.tappingKey.withCount n) t) P' k := by
  obtain ⟨hreal, hp, -⟩ := undecided_real hu
  by_cases hk : v.tappingKey.event.key = k
  · subst hk
    exact keyCounts_handed (r := v.tappingKey.withCount n) hreal
      (fun j hj => hr.tapping_event hu hj) (fun j hj => h.upTo hu j hj)
      (fun x hx hxk hc => ⟨⟨hp, (hmark x hx hxk hc).1⟩, (hmark x hx hxk hc).2⟩)
      (fun _ hc => .inl (htap hc))
  · refine (h.keys k).handThen (r := v.tappingKey.withCount n) hreal hk
      (fun j hj => hr.tapping_event hu hj) (fun x hxk hx => ?_) (fun x hxk _ hx => ?_)
      fun hs => absurd hs (not_settled_of_undecided hu)
    · exact (hsub x fun he => hk (he.symm.trans hxk)).mp hx
    · exact (hsub x fun he => hk (he.symm.trans hxk)).mpr hx

/-- Handing over a record that is consumed, for every key. -/
theorem Counts.handConsumed (h : Counts v (pending v r)) (hr : Ready v r)
    (hstep : TapStep K v r true r' w) (hreal : r.event.isNoEvent = false) (tap : Tap)
    (t : KeyRecord)
    (hset : v.settled = true → v.tappingKey.event.key ≠ r.event.key →
      (v.handThen K (r.withTap tap) t).settled = true ∧
        t.event.key = v.tappingKey.event.key)
    (htap : r.event.pressed = true → (v.hand K (r.withTap tap)).1.tap.count ≠ 0 →
      (v.handThen K (r.withTap tap) t).settled = true ∧ t.event.key = r.event.key)
    (k : KeyPos) :
    KeyCounts (v.handThen K (r.withTap tap) t) (· ∈ v.waitingBuffer) k := by
  by_cases hk : r.event.key = k
  · subst hk
    refine keyCounts_handed (r := r.withTap tap) hreal (fun j hj => hr.origin_event hreal hj)
      (fun j hj => hr.deliveredUpTo hreal hj) (fun x hx hxk hc => ?_)
      fun hp hc => .inl (htap hp hc)
    exact absurd (h.none_marked hr hstep hreal x hx hxk) hc
  · refine (h.keys k).handThen (r := r.withTap tap) hreal hk
      (fun j hj => hr.origin_event hreal hj) (fun x _ hx => .inl hx) (fun x hxk _ hx => ?_)
      fun hs hsk => ?_
    · rcases hx with hx | ⟨-, rfl⟩
      · exact hx
      · exact absurd hxk hk
    · obtain ⟨hs', hk'⟩ := hset hs fun he => hk (he.symm.trans hsk)
      exact ⟨hs', hk'.trans hsk⟩

/-- The first tap: the tapping key is executed with the count 1, and its release
is marked. -/
theorem Counts.firstTap (h : Counts v (pending v r)) (hr : Ready v r)
    (hown : ownFirstTap K r v) (hu : v.undecided = true) (hs : v.settledBy r = true) :
    Counts (v.tapped K)
      (pending (v.tapped K) (r.withTap (v.tapped K).tappingKey.tap)) := by
  obtain ⟨hreal, hp, hzero⟩ := undecided_real hu
  have hsettles := hs
  simp only [settledBy, isTappingKey, Bool.and_eq_true, beq_iff_eq, Bool.not_eq_true'] at hsettles
  have hk : r.event.key = v.tappingKey.event.key := hsettles.1.1.2.symm
  have hrreal := hr.wf.real_of_key hk hreal
  have hnot := h.undecided_not_tapped hr hu
  -- the count is 1, or the tap was cancelled
  have hcount : (v.tapped K).tappingKey.tap.count = 1 ∨
      (v.tapped K).tappingKey.tap.count = 0 := by
    rcases hand_fst_eq (K := K) (v.tappingKey.withCount 1) v with he | ⟨-, -, -, -, he⟩
    · exact .inl (congrArg (·.tap.count) he)
    · exact .inr (congrArg (·.tap.count) he)
  have hset : (v.tapped K).tappingKey.tap.count ≠ 0 →
      (v.tapped K).settled = true := by
    intro hc
    have he : (v.tapped K).tappingKey.event = v.tappingKey.event :=
      hand_fst_event (K := K) (v.tappingKey.withCount 1) v
    exact settled_of (he ▸ hreal) (he ▸ hp) hc
  have hkey : (v.tapped K).tappingKey.event.key = v.tappingKey.event.key :=
    congrArg KeyEvent.key (hand_fst_event (K := K) (v.tappingKey.withCount 1) v)
  have horigin : (v.tapped K).tappingKey.origin = v.tappingKey.origin :=
    hand_fst_origin (K := K) (v.tappingKey.withCount 1) v
  refine ⟨h.handTapping hr hu 1 _ (fun x hxk => ?_) (fun x hx hxk hc => ?_)
    (fun hc => ⟨hset hc, hkey⟩), fun _ i hi => ?_, fun hu' i hi _ => ?_, fun hs' => ?_,
    fun hs' _ => ?_, fun _ hc => ?_⟩
  · constructor
    · rintro (hx | ⟨-, rfl⟩)
      · exact .inl hx
      · exact absurd hk hxk
    · rintro (hx | ⟨-, rfl⟩)
      · exact .inl hx
      · exact absurd hk hxk
  · rcases hx with hx | ⟨-, rfl⟩
    · exact absurd ((h.keys _).marked x (.inl hx) hxk hc).1 (hxk ▸ hnot)
    · refine ⟨hc, fun y hy hyk => ?_⟩
      rcases hy with hy | ⟨-, rfl⟩
      · rcases hown hu hs with hold | ⟨hint, hmods⟩
        · exact origin_lt_asymm (hold y hy (hyk.trans hk.symm))
        · exact absurd (tapped_cancelled hu hint hmods) hc
      · exact fun hlt => origin_lt_asymm hlt hlt
  · rw [horigin] at hi
    rw [hkey]
    refine (h.upTo hu i hi).handThen (r := v.tappingKey.withCount 1) hreal
      (fun j hj => hr.tapping_event hu hj) fun _ j hj => ?_
    exact Nat.le_of_eq (Option.some.inj (hj.symm.trans hi))
  · rw [horigin] at hi
    rw [hkey]
    exact ⟨_, lastOf_handThen_self (r := v.tappingKey.withCount 1) hreal, hi, hp,
      (undecided_real hu').2.2⟩
  · rw [hkey]
    exact (tapped_handThen_self (r := v.tappingKey.withCount 1) hreal).mpr
      ⟨hp, (settled_real hs').2.2⟩
  · exact ⟨_, .inr ⟨hrreal, rfl⟩, hk.trans hkey.symm, (settled_real hs').2.2⟩
  · omega

/-- The timeout: the tapping key is executed without a count. -/
theorem Counts.timeout (h : Counts v (pending v r)) (hr : Ready v r) (hu : v.undecided = true) :
    Counts (v.handThen K v.tappingKey {}) (pending (v.handThen K v.tappingKey {}) r) := by
  have hnot := h.undecided_not_tapped hr hu
  have hzero : (v.hand K (v.tappingKey.withCount v.tappingKey.tap.count)).1.tap.count = 0 := by
    rw [hand_fst_of_zero (v.tappingKey.withCount _) v (undecided_real hu).2.2]
    exact (undecided_real hu).2.2
  have hgone : ∀ {P : Prop}, (v.handThen K v.tappingKey {}).undecided = true → P :=
    fun hu' => (Bool.false_ne_true hu').elim
  have hgone' : ∀ {P : Prop}, (v.handThen K v.tappingKey {}).settled = true → P :=
    fun hs => (Bool.false_ne_true hs).elim
  refine ⟨h.handTapping hr hu v.tappingKey.tap.count {} (fun x _ => Iff.rfl)
    (fun x hx hxk hc => ?_) (fun hc => absurd hzero hc), fun hu' => hgone hu',
    fun hu' => hgone hu', fun hs => hgone' hs, fun hs => hgone' hs, fun hs => hgone' hs⟩
  exact absurd ((h.keys _).marked x hx hxk hc).1 (hxk ▸ hnot)

/-- What waits, once the record in hand is consumed. -/
theorem pending_consumed (w : View) : pending w {} = (· ∈ w.waitingBuffer) :=
  funext fun x => propext (pending_empty w x)

theorem pending_noEvent (v : View) (he : r.event.isNoEvent = true) :
    pending v r = pending v {} := by
  rw [pending_consumed]
  funext x
  simp [pending, he]

/-- A tapping key that stays what it is stays undecided. -/
theorem undecided_handThen (r : KeyRecord) {t : KeyRecord} (v : View)
    (htag : t.tag = v.tappingKey.tag) (hcount : t.tap.count = v.tappingKey.tap.count) :
    (v.handThen K r t).undecided = v.undecided := by
  have he : t.event = v.tappingKey.event := congrArg Prod.snd htag
  simp [undecided, isTappingPressed, isTapping, he, hcount]

/-- A record is handed over and the tapping key stays what it is. -/
theorem Counts.handKeeping (h : Counts v (pending v r)) (hr : Ready v r)
    (hstep : TapStep K v r true r' w) (hreal : r.event.isNoEvent = false) (t : KeyRecord)
    (htag : t.tag = v.tappingKey.tag) (hcount : t.tap.count = v.tappingKey.tap.count)
    (hne : v.undecided = true ∨ v.settled = true → r.event.key ≠ v.tappingKey.event.key)
    (hzero : r.event.pressed = true → r.tap.count = 0) :
    Counts (v.handThen K r t) (pending (v.handThen K r t) {}) := by
  obtain ⟨ho, he⟩ := Prod.mk.inj htag
  have hundecided := undecided_handThen (K := K) r v htag hcount
  have hsettled : (v.handThen K r t).settled = v.settled := by
    simp [TappingState.settled, isTappingPressed, isTapping, he, hcount]
  rw [pending_consumed]
  refine ⟨h.handConsumed hr hstep hreal r.tap t (fun hs _ => ⟨hsettled.trans hs, by rw [he]⟩)
    (fun hp hc => ?_), fun hu i hi => ?_, fun hu i hi hd => ?_, fun hs => ?_, fun hs hone => ?_,
    fun hs hmore x hx hxk => ?_⟩
  · rw [show r.withTap r.tap = r from rfl, hand_fst_of_zero r v (hzero hp)] at hc
    exact absurd (hzero hp) hc
  · rw [hundecided] at hu
    change t.origin = some i at hi
    show DeliveredUpTo _ t.event.key i
    rw [ho] at hi
    rw [he]
    exact (h.upTo hu i hi).handThen hreal (fun j hj => hr.origin_event hreal hj)
      fun hk => absurd hk (hne (.inl hu))
  · rw [hundecided] at hu
    have hi' : v.tappingKey.origin = some i := ho.symm.trans hi
    rw [handThen_tappingKey, he, lastOf_handThen_of_ne hreal (hne (.inl hu))]
    refine h.cancelled hu i hi' ?_
    rcases (delivered_handThen r t v hreal i).mp hd with hd | hri
    · exact hd
    · have hevent := hr.origin_event hreal hri
      rw [hr.tapping_event hu hi'] at hevent
      exact absurd (congrArg KeyEvent.key (Option.some.inj hevent)).symm (hne (.inl hu))
  · rw [hsettled] at hs
    rw [handThen_tappingKey, he, tapped_handThen_of_ne hreal (hne (.inr hs))]
    exact h.settled hs
  · rw [hsettled] at hs
    obtain ⟨x, hx, hxk, hc⟩ := h.once hs (hcount.symm.trans hone)
    rcases hx with hx | ⟨-, rfl⟩
    · exact ⟨x, hx, hxk.trans (by rw [handThen_tappingKey, he]), hc⟩
    · exact absurd hxk (hne (.inr hs))
  · rw [hsettled] at hs
    exact h.more hs (hcount ▸ hmore) x (.inl hx)
      (hxk.trans (by rw [handThen_tappingKey, he]))

/-- The release of a settled tapping key is executed with its count. -/
theorem Counts.tapRelease (h : Counts v (pending v r)) (hr : Ready v r)
    (hstep : TapStep K v r true r' w) (hreal : r.event.isNoEvent = false)
    (hk : r.event.key = v.tappingKey.event.key) (hp : r.event.pressed = false) (tap : Tap)
    (t : KeyRecord) (ht : t.event.pressed = false) :
    Counts (v.handThen K (r.withTap tap) t) (pending (v.handThen K (r.withTap tap) t) {}) := by
  have hup : ∀ {P : Prop}, t.event.pressed = true → P := by
    intro P htp
    rw [ht] at htp
    simp at htp
  rw [pending_consumed]
  refine ⟨h.handConsumed hr hstep hreal tap t (fun hs hne => absurd hk.symm hne) (fun hrp => ?_),
    fun hu => hup (undecided_real hu).2.1, fun hu => hup (undecided_real hu).2.1,
    fun hs => hup (settled_real hs).2.1, fun hs => hup (settled_real hs).2.1,
    fun hs => hup (settled_real hs).2.1⟩
  rw [hp] at hrp
  simp at hrp

/-- A sequential tap is executed with one count more. -/
theorem Counts.sequential (h : Counts v (pending v r)) (hr : Ready v r)
    (hstep : TapStep K v r true r' w) (hreal : r.event.isNoEvent = false)
    (hp : r.event.pressed = true) (hrel : v.isTappingReleased = true)
    (hi : v.tappingKey.tap.interrupted = false) (hc : 0 < v.tappingKey.tap.count) :
    Counts (v.handThen K (r.withTap v.nextTap) (r.withTap v.nextTap))
      (pending (v.handThen K (r.withTap v.nextTap) (r.withTap v.nextTap)) {}) := by
  have hmore : 1 < v.nextTap.count := by
    simp only [nextTap]
    split <;> omega
  have hne : v.nextTap.count ≠ 0 := by omega
  have hsettled : (v.handThen K (r.withTap v.nextTap) (r.withTap v.nextTap)).settled = true :=
    settled_of hreal hp hne
  have hnot : ∀ {P : Prop}, (v.handThen K (r.withTap v.nextTap)
      (r.withTap v.nextTap)).undecided = true → P :=
    fun hu => absurd hsettled (not_settled_of_undecided hu)
  have hfst : (v.hand K (r.withTap v.nextTap)).1 = r.withTap v.nextTap :=
    hand_fst_of_uninterrupted _ v hi
  rw [pending_consumed]
  refine ⟨h.handConsumed hr hstep hreal v.nextTap _ (fun hs _ => ?_)
    (fun _ _ => ⟨hsettled, rfl⟩), fun hu => hnot hu, fun hu => hnot hu, fun _ => ?_,
    fun _ hone => ?_, fun _ _ x hx hxk => ?_⟩
  · have hpr := (settled_real hs).2.1
    rw [(released_real hrel).2] at hpr
    simp at hpr
  · exact (tapped_handThen_self (r := r.withTap v.nextTap) hreal).mpr
      ⟨hp, by rw [hfst]; exact hne⟩
  · exact absurd hone (Nat.ne_of_gt hmore)
  · exact h.none_marked hr hstep hreal x hx hxk

/-- Another record becomes the tapping key, for every key. -/
theorem KeyCounts.setTapping {P P' : KeyRecord → Prop} {k : KeyPos} (h : KeyCounts v P k)
    (t : KeyRecord) (hsub : ∀ x, P' x → P x) (hkeep : ∀ x, x.tap.count ≠ 0 → P x → P' x)
    (hset : v.settled = true → v.tappingKey.event.key = k →
      ∃ x, P x ∧ x.event.key = k ∧ x.tap.count ≠ 0) :
    KeyCounts { v with tappingKey := t } P' k where
  latest := h.latest
  marked := by
    intro x hx hk hc
    obtain ⟨ht, hold⟩ := h.marked x (hsub x hx) hk hc
    exact ⟨ht, fun y hy => hold y (hsub y hy)⟩
  tapped := by
    intro ht
    have hmark : ∃ x, P x ∧ x.event.key = k ∧ x.tap.count ≠ 0 := by
      rcases h.tapped ht with ⟨hs, hk⟩ | hx
      · exact hset hs hk
      · exact hx
    obtain ⟨x, hx, hk, hc⟩ := hmark
    exact .inr ⟨x, hkeep x hc hx, hk, hc⟩

/-- A press that was not delivered is the tapping key. -/
theorem counts_undecided {P : KeyRecord → Prop} (hkeys : ∀ k, KeyCounts w P k)
    (hzero : w.tappingKey.tap.count = 0)
    (hup : ∀ i, w.tappingKey.origin = some i →
      DeliveredUpTo w w.tappingKey.event.key i ∧ ¬Delivered w i) : Counts w P where
  keys := hkeys
  upTo := fun _ i hi => (hup i hi).1
  cancelled := fun _ i hi hd => absurd hd (hup i hi).2
  settled := fun hs => absurd hzero (settled_real hs).2.2
  once := fun hs => absurd hzero (settled_real hs).2.2
  more := fun hs => absurd hzero (settled_real hs).2.2

/-- A press is not marked, so nothing marked is lost with it. -/
theorem Ready.marked_waits (hr : Ready v r) (hp : r.event.pressed = true) {x : KeyRecord}
    (hc : x.tap.count ≠ 0) (hx : pending v r x) : x ∈ v.waitingBuffer := by
  rcases hx with hx | ⟨hreal, rfl⟩
  · exact hx
  · rw [(hr.inHand hreal).press_fresh hp] at hc
    exact absurd rfl hc

/-- "Start" keeps the counts of every key right. -/
theorem Counts.started (h : Counts v (pending v r)) (hr : Ready v r)
    (hp : r.event.isPressed = true) (k : KeyPos) :
    KeyCounts (v.started K r) (· ∈ v.waitingBuffer) k := by
  obtain ⟨hreal, hpr⟩ := r.event.isPressed_iff.mp hp
  have hk' : KeyCounts (v.lookUp K r.event) (pending v r) k :=
    ⟨(h.keys k).latest, (h.keys k).marked, (h.keys k).tapped⟩
  unfold TappingState.started
  dsimp only
  split
  · next hset =>
    have hsreal := lastTapRelease_real (v := v) hset.1 hreal
    by_cases hk : v.tappingKey.event.key = k
    · subst hk
      refine keyCounts_handed (r := (v.lookUp K r.event).lastTapRelease r.event.time) hsreal
        (fun j hj => by simp [lastTapRelease] at hj) (fun j hj => by simp [lastTapRelease] at hj)
        (fun x hx hxk hc => ?_) fun hlp => by simp [lastTapRelease] at hlp
      exact absurd (h.more hset.1 hset.2 x (.inl hx) hxk) hc
    · exact hk'.handThen (r := (v.lookUp K r.event).lastTapRelease r.event.time) hsreal hk
        (fun j hj => by simp [lastTapRelease] at hj) (fun x _ hx => .inl hx)
        (fun x _ hc hx => hr.marked_waits hpr hc hx) fun _ hsk => absurd hsk hk
  · next hset =>
    refine hk'.setTapping r (fun x hx => .inl hx) (fun x hc hx => hr.marked_waits hpr hc hx)
      fun hs hsk => ?_
    have hone : v.tappingKey.tap.count = 1 := by
      have hne := (settled_real (v := v) hs).2.2
      have hle : ¬v.tappingKey.tap.count > 1 := fun hgt => hset ⟨hs, hgt⟩
      omega
    exact hsk ▸ h.once hs hone

/-- The record that starts is the latest of its key and was not delivered. -/
theorem Ready.started_upTo (hr : Ready v r) (hreal : r.event.isNoEvent = false) {i : Nat}
    (hi : r.origin = some i) :
    DeliveredUpTo (v.started K r) r.event.key i ∧ ¬Delivered (v.started K r) i := by
  obtain ⟨j, hj, hnd⟩ := (hr.inHand hreal).stands
  obtain rfl : j = i := Option.some.inj (hj.1.symm.trans hi)
  refine ⟨fun m d hd hm hk => ?_, fun hd => ?_⟩
  · rw [started_submitted] at hm
    exact hr.deliveredUpTo hreal hi m d ((delivered_started (fun _ => hreal) m).mp hd) hm hk
  · exact hnd ((delivered_started (fun _ => hreal) j).mp hd)

/-- A new tapping key that the scan does not settle. -/
theorem Counts.startMiss (h : Counts v (pending v r)) (hr : Ready v r)
    (hp : r.event.isPressed = true) :
    Counts (v.started K r) (pending (v.started K r) {}) := by
  obtain ⟨hreal, hpr⟩ := r.event.isPressed_iff.mp hp
  rw [pending_consumed, started_waitingBuffer]
  refine counts_undecided (h.started hr hp) ?_ fun i hi => ?_
  · rw [started_tappingKey, (hr.inHand hreal).press_fresh hpr]
  · rw [started_tappingKey] at hi ⊢
    exact hr.started_upTo hreal hi

/-- "FIX: start new tap again" keeps the counts of every key right. -/
theorem Counts.again (h : Counts v (pending v r)) (hr : Ready v r)
    (hp : r.event.pressed = true) (hrel : v.isTappingReleased = true) :
    Counts { v with tappingKey := r } (pending { v with tappingKey := r } {}) := by
  have hreal := hr.wf.real_of_pressed hp
  rw [pending_consumed]
  refine counts_undecided (fun k => ?_) ?_ fun i hi => ?_
  · refine (h.keys k).setTapping r (fun x hx => .inl hx)
      (fun x hc hx => hr.marked_waits hp hc hx) fun hs => ?_
    have hpr := (settled_real hs).2.1
    rw [(released_real hrel).2] at hpr
    simp at hpr
  · show r.tap.count = 0
    rw [(hr.inHand hreal).press_fresh hp]
  · obtain ⟨j, hj, hnd⟩ := (hr.inHand hreal).stands
    obtain rfl : j = i := Option.some.inj (hj.1.symm.trans hi)
    exact ⟨hr.deliveredUpTo hreal hi, hnd⟩

/-- The tap of a fresh press is not cancelled. -/
theorem hand_fst_of_fresh (v : View) (hr : r.tap = {}) :
    (v.hand K (r.withCount 1)).1 = r.withCount 1 := by
  refine hand_fst_of_uninterrupted _ v ?_
  rw [KeyRecord.withCount_interrupted, hr]

/-- A tapping key that is a fresh press is handed over with a count of 1. -/
theorem tapped_of_fresh (htk : v.tappingKey = r) (hr : r.tap = {}) :
    v.tapped K = v.handThen K (r.withCount 1) (r.withCount 1) := by
  unfold TappingState.tapped
  rw [htk, hand_fst_of_fresh v hr]

/-- A new tapping key that the scan settles at once is executed as a tap. -/
theorem Counts.startHit (h : Counts v (pending v r)) (hr : Ready v r)
    (hstep : TapStep K v r true r' w) (hown : ownScan K r v) (hu : v.undecided = false)
    (hp : r.event.isPressed = true) (ht : (v.act.actionOf K r.event).isTap = true)
    {pre post : List KeyRecord} {x : KeyRecord} (hq : v.waitingBuffer = pre ++ x :: post)
    (hpre : ∀ y ∈ pre, ({ v with tappingKey := r } : View).settledBy y = false)
    (hx : ({ v with tappingKey := r } : View).settledBy x = true) :
    Counts (((v.started K r).withBuffer (pre ++ x.withCount 1 :: post)).tapped K)
      (· ∈ pre ++ x.withCount 1 :: post) := by
  obtain ⟨hreal, hpr⟩ := r.event.isPressed_iff.mp hp
  have hin := hr.inHand hreal
  have hxk : x.event.key = r.event.key := by
    simp only [settledBy, isTappingKey, Bool.and_eq_true, beq_iff_eq] at hx
    exact hx.1.1.2.symm
  have htk : ∀ q, ((v.started K r).withBuffer q).tappingKey = r := fun _ => started_tappingKey r v
  have hfst : ∀ u : View, (u.hand K (r.withCount 1)).1 = r.withCount 1 := fun u =>
    hand_fst_of_fresh u (hin.press_fresh hpr)
  rw [tapped_of_fresh (htk _) (hin.press_fresh hpr)]
  generalize hu' : (v.started K r).withBuffer (pre ++ x.withCount 1 :: post) = u
  have husub : u.submitted = v.submitted := by
    rw [← hu']
    exact started_submitted r v
  have hkeys : ∀ k, KeyCounts u (· ∈ v.waitingBuffer) k := fun k => by
    have hk := h.started (K := K) hr hp k
    rw [← hu']
    exact ⟨hk.latest, hk.marked, hk.tapped⟩
  have hupTo : ∀ j, r.origin = some j → DeliveredUpTo u r.event.key j := fun j hj => by
    rw [← hu']
    exact (hr.started_upTo hreal hj).1
  have hutk : u.tappingKey = r := by
    rw [← hu']
    exact htk _
  have hst : ∀ j, r.origin = some j → u.submitted[j]? = some r.event := fun j hj => by
    rw [husub]
    exact hr.origin_event hreal hj
  have hone : ((r.withCount 1).tap.count ≠ 0) := Nat.one_ne_zero
  have hsettled : (u.handThen K (r.withCount 1) (r.withCount 1)).settled = true :=
    settled_of hreal hpr hone
  have hnot : ∀ {P : Prop}, (u.handThen K (r.withCount 1) (r.withCount 1)).undecided = true → P :=
    fun hu => absurd hsettled (not_settled_of_undecided hu)
  -- only the mark is new among the records that wait
  have hmem : ∀ y ∈ pre ++ x.withCount 1 :: post, y = x.withCount 1 ∨ y ∈ v.waitingBuffer := by
    intro y hy
    rw [hq]
    simp only [List.mem_append, List.mem_cons] at hy ⊢
    tauto
  have hmem' : ∀ y ∈ v.waitingBuffer, y = x ∨ y ∈ pre ++ x.withCount 1 :: post := by
    intro y hy
    rw [hq] at hy
    simp only [List.mem_append, List.mem_cons] at hy ⊢
    tauto
  have holdest : ∀ y ∈ pre ++ x.withCount 1 :: post, y.event.key = r.event.key →
      ¬y.origin < x.origin := by
    intro y hy hyk
    have hord := hr.core.ordered
    have hpass := hown hu hp ht
    rw [hq, List.pairwise_append, List.pairwise_cons] at hord hpass
    rcases List.mem_append.mp hy with hy | hy
    · have hset : ({ v with tappingKey := r } : View).settledBy y = true :=
        hpass.2.2 y hy x List.mem_cons_self hyk hx
      rw [hpre y hy] at hset
      simp at hset
    · rcases List.mem_cons.mp hy with rfl | hy
      · exact fun hlt => origin_lt_asymm hlt hlt
      · exact origin_lt_asymm (hord.2.1.1 y hy)
  refine ⟨fun k => ?_, fun hu => hnot hu, fun hu => hnot hu, fun _ => ?_, fun _ _ => ?_,
    fun _ hmore => absurd hmore (Nat.lt_irrefl 1)⟩
  · by_cases hk : r.event.key = k
    · subst hk
      refine keyCounts_handed (r := r.withCount 1) hreal hst hupTo (fun y hy hyk hc => ?_)
        fun _ _ => .inl ⟨hsettled, rfl⟩
      rcases hmem y hy with rfl | hy'
      · exact ⟨⟨hpr, by rw [hfst]; exact hone⟩, holdest⟩
      · exact absurd (h.none_marked hr hstep hreal y hy' hyk) hc
    · refine (hkeys k).handThen (r := r.withCount 1) hreal hk hst (fun y hyk hy => ?_)
        (fun y hyk _ hy => ?_) fun hs => ?_
      · rcases hmem y hy with rfl | hy'
        · exact absurd (hxk.symm.trans hyk) hk
        · exact hy'
      · rcases hmem' y hy with rfl | hy'
        · exact absurd (hxk.symm.trans hyk) hk
        · exact hy'
      · have hc := (settled_real hs).2.2
        rw [hutk, hin.press_fresh hpr] at hc
        exact absurd rfl hc
  · exact (tapped_handThen_self (r := r.withCount 1) hreal).mpr ⟨hpr, by rw [hfst]; exact hone⟩
  · exact ⟨x.withCount 1, List.mem_append_right _ List.mem_cons_self, hxk, hone⟩

/-- **A step keeps the counts of releases right.** -/
theorem TapStep.counts {src : Source} {consumed : Bool} (h : TapStep K v r consumed r' w)
    (hr : Ready v r) (hown : ownRelease K src r v) (hc : Counts v (pending v r)) :
    Counts w (pending w (if consumed then {} else r')) := by
  have hstep := h
  cases h with
  | firstTap hu hs => exact hc.firstTap hr hown.1 hu hs
  | early hu hw hrel hk ht hn =>
    obtain ⟨hreal, hp⟩ := r.event.isReleased_iff.mp hrel
    exact hc.handKeeping hr hstep hreal v.tappingKey rfl rfl (fun _ => hk)
      fun hpr => by rw [hp] at hpr; simp at hpr
  | wait hu hw hs hrel =>
    split
    · exact ⟨fun k => ⟨(hc.keys k).latest, (hc.keys k).marked, (hc.keys k).tapped⟩, hc.upTo,
        hc.cancelled, hc.settled, hc.once, hc.more⟩
    · exact hc
  | timeout hu hw => exact hc.timeout hr hu
  | tapRelease hset hk hp =>
    refine hc.tapRelease hr hstep (hr.wf.real_of_key hk (settled_real hset).1) hk hp
      v.tappingKey.tap _ ?_
    split
    · exact hp
    · rfl
  | start w hu hp ht hrel hscan =>
    cases hscan with
    | miss hm => exact hc.startMiss hr hp
    | hit pre x post hu' hq hpre hx =>
      -- the scan is told by the tapping key alone, not by the layers
      have hsame : ∀ y, (v.started K r).settledBy y =
          ({ v with tappingKey := r } : View).settledBy y := by
        intro y
        simp only [settledBy, isTappingKey, isTapping, withinTappingTerm, started_tappingKey]
      rw [started_waitingBuffer] at hq
      simp only [hsame] at hpre hx
      rw [if_pos rfl, pending_consumed]
      exact hc.startHit hr hstep hown.2 hu hp ht hq hpre hx
  | sequential hrel hw hp hk hi hcount =>
    exact hc.sequential hr hstep (hr.wf.real_of_pressed hp) hp hrel hi hcount
  | again hrel hw hp hk hi => exact hc.again hr hp hrel
  | pass hu he hrel hset ht =>
    have hnot : r.event.pressed = true → ¬Pressed v r.event.key := fun hp =>
      hr.not_pressed hstep (r.event.isPressed_iff.mpr ⟨he, hp⟩) (hc.keys _).latest
    refine hc.handKeeping hr hstep he _ (interruptedBy_tag v r.event)
      (interruptedBy_count v r.event)
      (fun hus hk => ?_) fun hp => ?_
    · rcases hus with hu' | hs
      · rw [hu] at hu'
        simp at hu'
      · exact hnot (hset hs hk) (hk ▸ (hc.settled hs).pressed)
    · rw [(hr.inHand he).press_fresh hp]
  | releasedTimeout hrel hw =>
    refine ⟨fun k => (hc.keys k).setTapping {} (fun _ hx => hx) (fun _ _ hx => hx) fun hs => ?_,
      fun hu => (Bool.false_ne_true hu).elim, fun hu => (Bool.false_ne_true hu).elim,
      fun hs => (Bool.false_ne_true hs).elim, fun hs => (Bool.false_ne_true hs).elim,
      fun hs => (Bool.false_ne_true hs).elim⟩
    have hpr := (settled_real hs).2.1
    rw [(released_real hrel).2] at hpr
    simp at hpr
  | tick hu he hrel =>
    rw [if_pos rfl, ← pending_noEvent v he]
    exact hc

end Step

/-! ## Calls -/

theorem Counts.withBuffer (v : View) (q : List KeyRecord) (P : KeyRecord → Prop)
    (h : Counts v P) : Counts (v.withBuffer q) P :=
  ⟨fun k => ⟨(h.keys k).latest, (h.keys k).marked, (h.keys k).tapped⟩, h.upTo, h.cancelled,
    h.settled, h.once, h.more⟩

/-- A new submission has not been delivered. -/
theorem DeliveredUpTo.submit {v : View} {k : KeyPos} {i : Nat} (h : DeliveredUpTo v k i)
    (hc : Core v) (inp : Input) : DeliveredUpTo (v.submit inp) k i := by
  intro j d hd hj hk
  have hlt := hc.delivered_lt hd
  exact h j d hd ((List.getElem?_append_left hlt).symm.trans hj) hk

/-- A new record has no count and is the youngest. -/
theorem Counts.submit (v : View) (inp : Input) (hk : KeyOrdered v)
    (h : Counts v (pending v {})) :
    Counts (v.submit inp) (pending (v.submit inp) (v.record inp)) := by
  have hc := hk.booked.core
  have hold : ∀ x, pending v {} x → pending (v.submit inp) (v.record inp) x :=
    fun x hx => .inl ((pending_empty v x).mp hx)
  have hcases : ∀ x, pending (v.submit inp) (v.record inp) x →
      pending v {} x ∨ x = v.record inp := by
    rintro x (hx | ⟨-, rfl⟩)
    · exact .inl (.inl hx)
    · exact .inr rfl
  have hmarked : ∀ x, pending (v.submit inp) (v.record inp) x → x.tap.count ≠ 0 →
      pending v {} x := by
    intro x hx hn
    rcases hcases x hx with hx | rfl
    · exact hx
    · exact absurd rfl hn
  refine ⟨fun k => ⟨fun e i he ho => ((h.keys k).latest e i he ho).submit hc inp,
      fun x hx hxk hn => ?_, fun ht => ?_⟩, fun hu i hi => (h.upTo hu i hi).submit hc inp,
    h.cancelled, h.settled, fun hs hone => ?_, fun hs hmore x hx hxk => ?_⟩
  · obtain ⟨ht, hx'⟩ := (h.keys k).marked x (hmarked x hx hn) hxk hn
    refine ⟨ht, fun y hy hyk => ?_⟩
    rcases hcases y hy with hy | rfl
    · exact hx' y hy hyk
    · exact origin_lt_asymm (hc.lt_record inp x ((pending_empty v x).mp (hmarked x hx hn)))
  · rcases (h.keys k).tapped ht with hs | ⟨x, hx, hxk, hn⟩
    · exact .inl hs
    · exact .inr ⟨x, hold x hx, hxk, hn⟩
  · obtain ⟨x, hx, hxk, hn⟩ := h.once hs hone
    exact ⟨x, hold x hx, hxk, hn⟩
  · by_contra hn
    exact hn (h.more hs hmore x (hmarked x hx hn) hxk)

/-- At the start no key is tapped and nothing is pending. -/
theorem counts_init : Counts Tapping.init.view (pending Tapping.init.view {}) := by
  have hnone : ∀ k, lastOf k Tapping.init.view.handed = none := fun _ => rfl
  have hbuf : ∀ x, ¬pending Tapping.init.view {} x := by
    intro x hx
    rw [pending_empty, init_waitingBuffer] at hx
    simp at hx
  refine ⟨fun k => ⟨fun e i he => ?_, fun x hx => absurd hx (hbuf x), fun ⟨e, he, _⟩ => ?_⟩,
    fun hu => (Bool.false_ne_true hu).elim, fun hu => (Bool.false_ne_true hu).elim,
    fun hs => (Bool.false_ne_true hs).elim, fun hs => (Bool.false_ne_true hs).elim,
    fun hs => (Bool.false_ne_true hs).elim⟩
  · rw [hnone] at he
    simp at he
  · rw [hnone] at he
    simp at he

end Ch583Kbd.Tmk
