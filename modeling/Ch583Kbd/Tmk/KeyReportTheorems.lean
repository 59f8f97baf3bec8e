/-
Ch583Kbd.Tmk.KeyReportTheorems — the six-key ring of `action_util.c`
keeps the six most recent keys.

`Rep r xs` is the invariant that the source does not state: from `cb_head`
on the ring holds `xs`, whose zeros are the holes that deletions left, and
then zeros. `xs` does not end in a hole, and an empty ring has `cb_head`
at 0. `held xs`, the codes without the holes, is the list the ring stands
for: `add_key_byte` makes `recent 6` of it, `del_key_byte` erases from it
(`addKeyByte_spec`, `delKeyByte_spec`), and each loop ends because `xs`
does.
-/
import Ch583Kbd.Lib.CircularArray
import Ch583Kbd.Tmk.ActionUtil

namespace Ch583Kbd.Tmk

open Ch583Kbd.Lib

namespace KeyReport

/-! ## Indices and slots -/

theorem roInc_mod (a : Nat) : roInc (a % 6) = (a + 1) % 6 := by
  simp only [roInc, roAdd, usb6kroKeys]
  omega

theorem roDec_mod (a : Nat) : roDec ((a + 1) % 6) = a % 6 := by
  simp only [roDec, roSub, usb6kroKeys]
  omega

/-- A slot reads back what was written to it, and the others what they held. -/
theorem key_setKey (r : KeyReport) (i j : Nat) (v : BitVec 8) (hi : i < 6) :
    (r.setKey i v).key j = if j = i then v else r.key j := by
  simp only [key, setKey, Vector.getElem?_setIfInBounds]
  by_cases h : j = i
  · subst h
    rw [if_pos rfl, if_pos rfl, if_pos (by simp only [keyboardReportSize]; omega)]
    rfl
  · rw [if_neg h, if_neg (by omega)]

@[simp] theorem setKey_cbHead (r : KeyReport) (i : Nat) (v : BitVec 8) :
    (r.setKey i v).cbHead = r.cbHead := rfl
@[simp] theorem setKey_cbTail (r : KeyReport) (i : Nat) (v : BitVec 8) :
    (r.setKey i v).cbTail = r.cbTail := rfl
@[simp] theorem setKey_cbCount (r : KeyReport) (i : Nat) (v : BitVec 8) :
    (r.setKey i v).cbCount = r.cbCount := rfl

/-- The bytes besides `keys[0..5]` are those of `r`. -/
def SameOutside (r r' : KeyReport) : Prop :=
  ∀ j, j < 2 ∨ 8 ≤ j → r'.raw[j]? = r.raw[j]?

theorem SameOutside.trans {r r' r'' : KeyReport} (h : SameOutside r r')
    (h' : SameOutside r' r'') : SameOutside r r'' :=
  fun j hj => (h' j hj).trans (h j hj)

theorem sameOutside_setKey (r : KeyReport) {i : Nat} (hi : i < 6) (v : BitVec 8) :
    SameOutside r (r.setKey i v) := by
  intro j hj
  simp only [setKey, Vector.getElem?_setIfInBounds]
  rw [if_neg (by omega)]

/-- Writing one slot of the ring changes that element of the segment. -/
theorem segment_setKey {r : KeyReport} {i : Nat} {xs ys : List (BitVec 8)} {x : BitVec 8}
    (h : Segment r.key 6 i (xs ++ x :: ys)) (hlen : xs.length + ys.length < 6) (v : BitVec 8) :
    Segment (r.setKey ((i + xs.length) % 6) v).key 6 i (xs ++ v :: ys) := by
  refine h.write hlen ?_ fun j hj => ?_
  · rw [key_setKey _ _ _ _ (by omega), if_pos rfl]
  · rw [key_setKey _ _ _ _ (by omega), if_neg hj]

/-! ## The invariant -/

/-- The codes of a segment, without the holes. -/
def held (xs : List (BitVec 8)) : List (BitVec 8) := xs.filter (· != 0#8)

@[simp] theorem held_nil : held [] = [] := rfl
@[simp] theorem held_append (xs ys : List (BitVec 8)) :
    held (xs ++ ys) = held xs ++ held ys := List.filter_append ..
@[simp] theorem held_replicate (n : Nat) : held (List.replicate n 0#8) = [] := by simp [held]
@[simp] theorem held_zero_cons (xs : List (BitVec 8)) : held (0#8 :: xs) = held xs := rfl

theorem held_cons {x : BitVec 8} (h : x ≠ 0#8) (xs : List (BitVec 8)) :
    held (x :: xs) = x :: held xs := by
  simp [held, h]

/-- A code is held when it is in the list of slots. -/
theorem mem_held {x : BitVec 8} (h : x ≠ 0#8) {xs : List (BitVec 8)} : x ∈ held xs ↔ x ∈ xs := by
  simp [held, h]

/-- No more codes are held than there are slots. -/
theorem held_length_le (xs : List (BitVec 8)) : (held xs).length ≤ xs.length :=
  List.length_filter_le ..

/-- The ring holds `xs` from `cb_head` on. -/
structure Rep (r : KeyReport) (xs : List (BitVec 8)) : Prop where
  head : r.cbHead < 6
  fits : xs.length ≤ 6
  tail : r.cbTail = (r.cbHead + xs.length) % 6
  slots : Segment r.key 6 r.cbHead (xs ++ List.replicate (6 - xs.length) 0#8)
  count : r.cbCount.toNat = (held xs).length
  last : ∀ ys y, xs = ys ++ [y] → y ≠ 0#8
  home : xs = [] → r.cbHead = 0
  nodup : (held xs).Nodup

/-- A ring that holds no code has no slots in use. -/
theorem Rep.eq_nil {r : KeyReport} {xs : List (BitVec 8)} (h : Rep r xs)
    (hn : held xs = []) : xs = [] := by
  rcases List.eq_nil_or_concat xs with rfl | ⟨ys, y, rfl⟩
  · rfl
  · rw [List.concat_eq_append] at h hn
    rw [held_append, held_cons (h.last ys y rfl)] at hn
    simp at hn

/-- The count is zero when the ring is empty. -/
theorem Rep.count_eq_zero {r : KeyReport} {xs : List (BitVec 8)} (h : Rep r xs) :
    r.cbCount = 0 ↔ xs = [] := by
  rw [← BitVec.toNat_inj, h.count]
  constructor
  · exact fun hz => h.eq_nil (List.length_eq_zero_iff.mp hz)
  · rintro rfl
    rfl

/-! ## `add_key_byte` -/

/-- The first loop looks at `ys`, the slots from `i` up to `cb_tail`. -/
theorem addScan_spec {r : KeyReport} {code : BitVec 8} (hc : code ≠ 0#8) :
    ∀ (ys : List (BitVec 8)) (i fuel : Nat) (empty : Option Nat),
      Segment r.key 6 i ys → ys ≠ [] → ys.length ≤ 6 → ys.length ≤ fuel →
      r.cbTail = (i + ys.length) % 6 →
      r.addScan code fuel (i % 6) empty = some (if code ∈ ys then .found
        else .ended r.cbTail (empty.or ((ys.findIdx? (· = 0#8)).map fun p => (i + p) % 6)))
  | [], _, _, _, _, hne, _, _, _ => absurd rfl hne
  | y :: ys, i, 0, _, _, _, _, hfuel, _ => absurd hfuel (by simp)
  | y :: ys, i, fuel + 1, empty, hs, _, hlen, hfuel, ht => by
    obtain ⟨hy, hys⟩ := hs
    rw [addScan, hy]
    by_cases hcode : y = code
    · rw [if_pos hcode, if_pos (hcode ▸ List.mem_cons_self)]
    · have hmem : code ∈ y :: ys ↔ code ∈ ys := by simp [Ne.symm hcode]
      rw [if_neg hcode, roInc_mod]
      simp only [hmem]
      have hidx : ∀ p, (i + (p + 1)) % 6 = (i + 1 + p) % 6 := fun p => by congr 1; omega
      have hfirst : (((y :: ys).findIdx? (· = 0#8)).map fun p => (i + p) % 6) =
          (if y = 0#8 then some (i % 6) else none).or
            ((ys.findIdx? (· = 0#8)).map fun p => (i + 1 + p) % 6) := by
        rw [List.findIdx?_cons]
        by_cases hz : y = 0#8
        · simp [hz]
        · simp [hz, Function.comp_def, hidx]
      have hempty : (if empty = none ∧ y = 0 then some (i % 6) else empty) =
          empty.or (if y = 0#8 then some (i % 6) else none) := by
        cases empty <;> by_cases hz : y = 0#8 <;> simp [hz]
      rw [hempty, hfirst, ← Option.or_assoc]
      rw [List.length_cons] at hlen hfuel ht
      by_cases hnil : ys = []
      · subst hnil
        have hend : (i + 1) % 6 = r.cbTail := ht.symm
        rw [if_neg (not_not_intro hend), hend]
        simp
      · have hpos := List.length_pos_iff.mpr hnil
        have hgo : (i + 1) % 6 ≠ r.cbTail := by rw [ht]; omega
        rw [if_pos hgo]
        exact addScan_spec hc ys (i + 1) fuel _ hys hnil (by omega) (by omega)
          (by rw [ht]; congr 1; omega)

/-- Over a hole the loop goes on and counts it. -/
theorem addShift_hole {r : KeyReport} {i : Nat} (h : r.key i = 0) (fuel empty offset : Nat) :
    addShift (fuel + 1) r i empty offset =
      if roInc i ≠ r.cbTail then addShift fuel r (roInc i) empty (offset + 1)
      else some (r, offset + 1) := by
  simp [addShift, h]

/-- Over a code the loop moves it back into the first hole. -/
theorem addShift_move {r : KeyReport} {i : Nat} (h : r.key i ≠ 0) (fuel empty offset : Nat) :
    addShift (fuel + 1) r i empty offset =
      if roInc i ≠ r.cbTail then
        addShift fuel ((r.setKey empty (r.key i)).setKey i 0) (roInc i) (roInc empty) offset
      else some ((r.setKey empty (r.key i)).setKey i 0, offset) := by
  rw [addShift]
  simp only [if_pos h, setKey_cbTail]

/-- One round of the shift, and the ring after it. -/
theorem addShift_round {bs as : List (BitVec 8)} {b : BitVec 8} {holes : Nat} {r : KeyReport}
    (hs : Segment r.key 6 r.cbHead (as ++ List.replicate holes 0#8 ++ b :: bs))
    (hholes : 0 < holes) (hlen : as.length + holes + bs.length + 1 = 6) (fuel : Nat) :
    ∃ (r1 : KeyReport) (as1 : List (BitVec 8)) (holes1 : Nat),
      addShift (fuel + 1) r ((r.cbHead + as.length + holes) % 6)
          ((r.cbHead + as.length) % 6) holes =
        (if (r.cbHead + as.length + holes + 1) % 6 ≠ r.cbTail then
          addShift fuel r1 ((r.cbHead + as.length + holes + 1) % 6)
            ((r.cbHead + as1.length) % 6) holes1
        else some (r1, holes1)) ∧
      0 < holes1 ∧ as1 ++ held bs = as ++ held (b :: bs) ∧
      as1.length + holes1 = as.length + holes + 1 ∧
      Segment r1.key 6 r.cbHead (as1 ++ List.replicate holes1 0#8 ++ bs) ∧
      r1.cbHead = r.cbHead ∧ r1.cbTail = r.cbTail ∧ r1.cbCount = r.cbCount ∧
      SameOutside r r1 := by
  have hb : r.key ((r.cbHead + as.length + holes) % 6) = b := by
    have hat := (segment_append.mp hs).2.1
    rw [List.length_append, List.length_replicate, ← Nat.add_assoc] at hat
    exact hat
  by_cases hb0 : b = 0#8
  · subst hb0
    refine ⟨r, as, holes + 1, ?_, by omega, rfl, by omega, ?_, rfl, rfl, rfl,
      fun _ _ => rfl⟩
    · rw [addShift_hole hb, roInc_mod]
    · rw [List.replicate_succ', ← List.append_assoc, List.append_assoc,
        List.singleton_append]
      exact hs
  · obtain ⟨h0, rfl⟩ : ∃ h0, holes = h0 + 1 := ⟨holes - 1, by omega⟩
    refine ⟨(r.setKey ((r.cbHead + as.length) % 6) b).setKey
      ((r.cbHead + as.length + (h0 + 1)) % 6) 0, as ++ [b], h0 + 1, ?_, by omega, ?_, ?_, ?_,
      rfl, rfl, rfl, ?_⟩
    · rw [addShift_move (hb ▸ hb0), roInc_mod, roInc_mod, hb, List.length_append,
        List.length_singleton, Nat.add_assoc r.cbHead as.length 1]
    · rw [held_cons hb0, List.append_assoc, List.singleton_append]
    · rw [List.length_append, List.length_singleton]
      omega
    · -- the code moves to the first hole, and leaves one behind
      rw [List.replicate_succ, List.append_assoc, List.cons_append] at hs
      have h1 := segment_setKey hs (by simp; omega) b
      rw [← List.cons_append, ← List.append_assoc] at h1
      have h2 := segment_setKey h1 (by simp; omega) 0#8
      have hidx : r.cbHead + (as ++ b :: List.replicate h0 0#8).length =
          r.cbHead + as.length + (h0 + 1) := by
        simp only [List.length_append, List.length_cons, List.length_replicate]
        omega
      rw [hidx] at h2
      rw [List.replicate_succ']
      simpa using h2
    · exact (sameOutside_setKey r (Nat.mod_lt _ (by omega)) b).trans
        (sameOutside_setKey _ (Nat.mod_lt _ (by omega)) 0)

/-- The left shift: behind the codes `as` the holes grow and the rest `bs`
of the ring moves up to `as`. -/
theorem addShift_spec : ∀ (bs as : List (BitVec 8)) (holes fuel : Nat) (r : KeyReport),
    Segment r.key 6 r.cbHead (as ++ List.replicate holes 0#8 ++ bs) → bs ≠ [] → 0 < holes →
    as.length + holes + bs.length = 6 → bs.length ≤ fuel → r.cbTail = r.cbHead →
    r.cbHead < 6 →
    ∃ r', addShift fuel r ((r.cbHead + as.length + holes) % 6) ((r.cbHead + as.length) % 6) holes =
        some (r', 6 - (as ++ held bs).length) ∧
      Segment r'.key 6 r.cbHead
        (as ++ held bs ++ List.replicate (6 - (as ++ held bs).length) 0#8) ∧
      r'.cbHead = r.cbHead ∧ r'.cbTail = r.cbTail ∧ r'.cbCount = r.cbCount ∧ SameOutside r r'
  | [], _, _, _, _, _, hne, _, _, _, _, _ => absurd rfl hne
  | b :: bs, as, holes, 0, r, _, _, _, _, hfuel, _, _ => absurd hfuel (by simp)
  | b :: bs, as, holes, fuel + 1, r, hs, _, hholes, hlen, hfuel, ht, hh => by
    rw [List.length_cons] at hlen hfuel
    obtain ⟨r1, as1, holes1, hr1, hpos1, hheld, hlen1, hs1, hh1, ht1, hc1, hsame1⟩ :=
      addShift_round hs hholes (by omega) fuel
    rw [hr1]
    by_cases hnil : bs = []
    · subst hnil
      rw [List.length_nil] at hlen
      have hstop : (r.cbHead + as.length + holes + 1) % 6 = r.cbTail := by
        rw [ht]
        omega
      have hholes1 : holes1 = 6 - (as ++ held [b]).length := by
        rw [← hheld, held_nil, List.append_nil]
        omega
      rw [if_neg (not_not_intro hstop), ← hholes1]
      refine ⟨r1, rfl, ?_, hh1, ht1, hc1, hsame1⟩
      rw [← hheld, held_nil, List.append_nil]
      simpa using hs1
    · have hpos := List.length_pos_iff.mpr hnil
      have hgo : (r.cbHead + as.length + holes + 1) % 6 ≠ r.cbTail := by
        rw [ht]
        omega
      have hidx : r.cbHead + as.length + holes + 1 = r1.cbHead + as1.length + holes1 := by omega
      rw [if_pos hgo, hidx, ← hh1]
      obtain ⟨r', hr', hs', hh', ht', hc', hsame'⟩ :=
        addShift_spec bs as1 holes1 fuel r1 (hh1 ▸ hs1) hnil hpos1 (by omega) (by omega)
          (by rw [hh1, ht1, ht]) (hh1 ▸ hh)
      rw [hheld] at hr' hs'
      exact ⟨r', hr', hs', hh', ht'.trans ht1, hc'.trans hc1, hsame1.trans hsame'⟩

/-- A new code goes to the slot behind `xs`, whatever is in it. -/
theorem addToTail_rep {r : KeyReport} {xs : List (BitVec 8)} {z code : BitVec 8}
    (hh : r.cbHead < 6) (hlen : xs.length < 6) (ht : r.cbTail = (r.cbHead + xs.length) % 6)
    (hs : Segment r.key 6 r.cbHead (xs ++ z :: List.replicate (5 - xs.length) 0#8))
    (hcount : r.cbCount.toNat = (held xs).length) (hn : (held xs).Nodup)
    (hc : code ≠ 0#8) (hmem : code ∉ xs) :
    Rep (r.addToTail code) (xs ++ [code]) ∧ SameOutside r (r.addToTail code) := by
  have hle := held_length_le xs
  refine ⟨⟨hh, by simp; omega, ?_, ?_, ?_, fun ys y he => ?_, fun he => ?_, ?_⟩, ?_⟩
  · change roInc r.cbTail = _
    rw [ht, roInc_mod, List.length_append, List.length_singleton]
    rfl
  · have hset := segment_setKey hs (by simp; omega) code
    rw [← ht] at hset
    have hlen' : 6 - (xs ++ [code]).length = 5 - xs.length := by
      rw [List.length_append, List.length_singleton]
      omega
    rw [hlen', List.append_assoc]
    exact hset
  · change (r.cbCount + 1).toNat = _
    rw [BitVec.toNat_add, hcount, held_append, held_cons hc, List.length_append]
    simp
    omega
  · obtain ⟨-, hy⟩ := List.append_inj' he rfl
    exact (List.cons.inj hy).1 ▸ hc
  · simp at he
  · rw [held_append, held_cons hc]
    refine List.nodup_append.mpr ⟨hn, List.nodup_singleton code, fun x hx y hy hxy => ?_⟩
    rw [held_nil, List.mem_singleton] at hy
    exact hmem ((mem_held hc).mp (hy ▸ hxy ▸ hx))
  · exact sameOutside_setKey r (by rw [ht]; omega) code

/-- Before the first hole of a segment stand codes only. -/
theorem findIdx_hole {xs : List (BitVec 8)} {p : Nat} (h : xs.findIdx? (· = 0#8) = some p) :
    ∃ as bs, xs = as ++ 0#8 :: bs ∧ as.length = p ∧ held as = as := by
  obtain ⟨hp, hz, hbefore⟩ := List.findIdx?_eq_some_iff_getElem.mp h
  refine ⟨xs.take p, xs.drop (p + 1), ?_, ?_, ?_⟩
  · rw [← of_decide_eq_true hz, List.getElem_cons_drop, List.take_append_drop]
  · rw [List.length_take]
    omega
  · refine List.filter_eq_self.mpr fun x hx => ?_
    obtain ⟨q, hq, rfl⟩ := List.mem_take_iff_getElem.mp hx
    simpa using hbefore q (by omega)

/-- A full ring without a hole drops its oldest code. -/
theorem addToTail_pop {r : KeyReport} {x code : BitVec 8} {xs : List (BitVec 8)}
    (h : Rep r (x :: xs)) (hlen : xs.length = 5) (hall : held (x :: xs) = x :: xs)
    (hc : code ≠ 0#8) (hmem : code ∉ x :: xs) :
    let r' := addToTail { r with cbHead := roInc r.cbHead, cbCount := r.cbCount - 1 } code
    Rep r' (xs ++ [code]) ∧ held (xs ++ [code]) = xs ++ [code] ∧ SameOutside r r' := by
  have hhead := h.head
  have hslots := h.slots
  have hcount := h.count
  have hnodup := h.nodup
  have htl : held xs = xs := by
    have hx : x ≠ 0#8 := (List.filter_eq_self.mp hall x List.mem_cons_self |> bne_iff_ne.mp)
    rw [held_cons hx] at hall
    exact (List.cons.inj hall).2
  rw [List.length_cons, hlen] at hslots
  rw [hall] at hcount hnodup
  rw [List.length_cons, hlen] at hcount
  have hnew := addToTail_rep (r := { r with cbHead := roInc r.cbHead, cbCount := r.cbCount - 1 })
    (z := x) (by simp only [roInc, roAdd, usb6kroKeys]; omega)
    (by omega) ?_ ?_ ?_ (htl.symm ▸ (List.nodup_cons.mp hnodup).2) hc
    (fun hm => hmem (List.mem_cons_of_mem _ hm))
  · refine ⟨hnew.1, ?_, hnew.2⟩
    rw [held_append, held_cons hc, htl, held_nil]
  · have ht := h.tail
    rw [List.length_cons] at ht
    simp only [roInc, roAdd, usb6kroKeys]
    omega
  · rw [Nat.sub_self, List.replicate_zero, List.append_nil] at hslots
    have hrot := hslots.rotate (by rw [List.length_cons, hlen])
    rw [← segment_index (i := (r.cbHead + 1) % 6) (by simp)] at hrot
    rw [hlen]
    exact hrot
  · rw [htl, hlen]
    change (r.cbCount - 1).toNat = 5
    bv_omega

/-- A full ring with holes closes them and takes the code at its tail. -/
theorem addToTail_shift {r r' : KeyReport} {code : BitVec 8} {xs : List (BitVec 8)}
    (h : Rep r xs) (hlen : xs.length = 6) (hlt : (held xs).length < 6)
    (hs : Segment r'.key 6 r.cbHead (held xs ++ List.replicate (6 - (held xs).length) 0#8))
    (hh : r'.cbHead = r.cbHead) (ht : r'.cbTail = r.cbTail) (hcount : r'.cbCount = r.cbCount)
    (hc : code ≠ 0#8) (hmem : code ∉ xs) :
    let r'' := addToTail { r' with cbTail := roSub r'.cbTail (6 - (held xs).length) } code
    Rep r'' (held xs ++ [code]) ∧ held (held xs ++ [code]) = held xs ++ [code] ∧
      SameOutside r' r'' := by
  have hhead := h.head
  have hidem : held (held xs) = held xs := List.filter_filter .. |>.trans (by simp [held])
  rw [show 6 - (held xs).length = (5 - (held xs).length) + 1 by omega, List.replicate_succ] at hs
  have hnew := addToTail_rep
    (r := { r' with cbTail := roSub r'.cbTail (6 - (held xs).length) }) (z := 0#8)
    (hh ▸ h.head) hlt ?_ (hh ▸ hs)
    (by rw [hidem]; exact hcount ▸ h.count) (hidem.symm ▸ h.nodup) hc
    (fun hm => hmem ((mem_held hc).mp hm))
  · refine ⟨hnew.1, ?_, hnew.2⟩
    rw [held_append, held_cons hc, hidem, held_nil]
  · have htail := h.tail
    rw [hlen] at htail
    simp only [hh, ht, roSub, usb6kroKeys]
    omega

/-- **`add_key_byte` keeps the six most recent keys**, and its loops end. -/
theorem addKeyByte_spec {r : KeyReport} {xs : List (BitVec 8)} (h : Rep r xs)
    {code : BitVec 8} (hc : code ≠ 0#8) :
    ∃ r' xs', r.addKeyByte? code = some r' ∧ Rep r' xs' ∧
      held xs' = recent 6 (held xs) code ∧ SameOutside r r' := by
  rw [addKeyByte?]
  by_cases hz : r.cbCount = 0
  · -- the ring is empty
    obtain rfl := h.count_eq_zero.mp hz
    have hnew := addToTail_rep (z := 0#8) h.head (by simp) h.tail h.slots h.count h.nodup hc
      (List.not_mem_nil (a := code))
    refine ⟨_, [code], if_neg (not_not_intro hz), hnew.1, ?_, hnew.2⟩
    rw [held_cons hc]
    rfl
  · have hne : xs ≠ [] := fun he => hz (h.count_eq_zero.mpr he)
    have hpos := List.length_pos_iff.mpr hne
    have hfits := h.fits
    have hhead := h.head
    have htail := h.tail
    have hscan := addScan_spec hc xs r.cbHead usb6kroKeys none (segment_append.mp h.slots).1 hne
      h.fits h.fits h.tail
    rw [Nat.mod_eq_of_lt h.head, Option.none_or] at hscan
    rw [if_pos hz, hscan]
    by_cases hmem : code ∈ xs
    · -- the code is there already
      rw [if_pos hmem]
      refine ⟨r, xs, rfl, h, ?_, fun _ _ => rfl⟩
      rw [recent, if_pos ((mem_held hc).mpr hmem)]
    · have hnot : code ∉ held xs := fun hm => hmem ((mem_held hc).mp hm)
      rw [if_neg hmem, recent, if_neg hnot]
      dsimp only
      by_cases hfull : r.cbTail = r.cbHead
      · -- the ring is full: the oldest code is dropped, or a hole is filled
        have hlen : xs.length = 6 := by omega
        rw [if_pos ⟨rfl, hfull⟩]
        cases hfind : xs.findIdx? (· = 0#8) with
        | none =>
          have hall : held xs = xs := by
            refine List.filter_eq_self.mpr fun x hx => ?_
            simpa using List.findIdx?_eq_none_iff.mp hfind x hx
          obtain ⟨x, xs, rfl⟩ := List.exists_cons_of_ne_nil hne
          rw [List.length_cons] at hlen
          obtain ⟨hrep, hheld, hsame⟩ := addToTail_pop h (by omega) hall hc hmem
          refine ⟨_, xs ++ [code], rfl, hrep, ?_, hsame⟩
          rw [hheld, hall, if_neg (by rw [List.length_cons]; omega), List.tail_cons]
        | some p =>
          obtain ⟨as, bs, rfl, rfl, has⟩ := findIdx_hole hfind
          have hbs : bs ≠ [] := by
            rintro rfl
            exact h.last as 0#8 rfl rfl
          have hslots := h.slots
          rw [hlen, Nat.sub_self, List.replicate_zero, List.append_nil] at hslots
          have hheld : held (as ++ 0#8 :: bs) = as ++ held bs := by
            rw [held_append, held_zero_cons, has]
          have hlen' := hlen
          rw [List.length_append, List.length_cons] at hlen'
          have hlt : (held (as ++ 0#8 :: bs)).length < 6 := by
            have hle := held_length_le bs
            rw [hheld, List.length_append]
            omega
          obtain ⟨r', hshift, hs', hh', ht', hc', hsame'⟩ := addShift_spec bs as 1 usb6kroKeys r
            (by simpa using hslots) hbs (by omega) (by omega) (by simp only [usb6kroKeys]; omega)
            hfull h.head
          rw [← hheld] at hshift hs'
          obtain ⟨hrep, hnew, hsame⟩ := addToTail_shift h hlen hlt hs' hh' ht' hc' hc hmem
          rw [← roInc_mod] at hshift
          refine ⟨_, held (as ++ 0#8 :: bs) ++ [code], ?_, hrep, ?_, hsame'.trans hsame⟩
          · dsimp only [Option.map]
            rw [hshift]
          · rw [hnew, if_pos hlt]
      · -- there is a free slot behind `xs`
        have hlt : xs.length < 6 := by omega
        have hslots := h.slots
        rw [show 6 - xs.length = (5 - xs.length) + 1 by omega, List.replicate_succ] at hslots
        obtain ⟨hrep, hsame⟩ := addToTail_rep h.head hlt h.tail hslots h.count h.nodup hc hmem
        have hle := held_length_le xs
        refine ⟨_, xs ++ [code], if_neg fun hand => hfull hand.2, hrep, ?_, hsame⟩
        rw [if_pos (by omega), held_append, held_cons hc, held_nil]

/-! ## `del_key_byte` -/

/-- `cb_tail` moves back over the holes behind `x`. -/
theorem delRetract_spec {x : BitVec 8} (hx : x ≠ 0#8) {as t : List (BitVec 8)} :
    ∀ (holes fuel : Nat) (r : KeyReport), 0 < holes → holes ≤ fuel →
      Segment r.key 6 r.cbHead (as ++ x :: (List.replicate holes 0#8 ++ t)) →
      as.length + 1 + holes ≤ 6 → r.cbTail = (r.cbHead + as.length + 1 + holes) % 6 →
      r.cbHead < 6 →
      delRetract fuel r = some { r with cbTail := (r.cbHead + as.length + 1) % 6 }
  | 0, _, _, hpos, _, _, _, _, _ => absurd hpos (by simp)
  | holes + 1, 0, _, _, hfuel, _, _, _, _ => absurd hfuel (by simp)
  | holes + 1, fuel + 1, r, _, hfuel, hs, hlen, ht, hh => by
    have htail : roDec r.cbTail = (r.cbHead + as.length + 1 + holes) % 6 := by
      rw [ht, ← Nat.add_assoc, roDec_mod]
    rw [delRetract]
    simp only [htail]
    cases holes with
    | zero =>
      have hkey : r.key ((r.cbHead + as.length) % 6) = x := (segment_append.mp hs).2.1
      have hdec : roDec ((r.cbHead + as.length + 1 + 0) % 6) = (r.cbHead + as.length) % 6 :=
        roDec_mod _
      rw [hdec]
      exact if_pos (hkey ▸ hx)
    | succ holes =>
      have hkey : r.key ((r.cbHead + as.length + 1 + holes) % 6) = 0 := by
        rw [List.replicate_succ', ← List.cons_append, List.replicate_succ'] at hs
        rw [show as ++ (x :: (List.replicate holes 0#8 ++ [0#8] ++ [0#8]) ++ t) =
          (as ++ x :: List.replicate holes 0#8) ++ (0#8 :: 0#8 :: t) by simp] at hs
        have hat := (segment_append.mp hs).2.1
        rw [List.length_append, List.length_cons, List.length_replicate] at hat
        rw [Nat.add_assoc, Nat.add_assoc, Nat.add_comm 1 holes]
        exact hat
      have hdec : roDec ((r.cbHead + as.length + 1 + (holes + 1)) % 6) =
          (r.cbHead + as.length + 1 + holes) % 6 := roDec_mod _
      have hgo : (r.cbHead + as.length + 1 + (holes + 1)) % 6 ≠ r.cbHead := by omega
      rw [hdec]
      change (if r.key _ ≠ 0 then _ else if (_ : Nat) ≠ r.cbHead then _ else _) = _
      rw [if_neg (not_not_intro hkey), if_pos hgo]
      have hs' : Segment r.key 6 r.cbHead
          (as ++ x :: (List.replicate (holes + 1) 0#8 ++ (0#8 :: t))) := by
        rw [List.replicate_succ', List.append_assoc] at hs
        exact hs
      exact delRetract_spec (t := 0#8 :: t) hx (holes + 1) fuel
        { r with cbTail := (r.cbHead + as.length + 1 + (holes + 1)) % 6 }
        (by omega) (by omega) hs' (by omega) rfl hh

/-- In an empty ring at home `cb_tail` goes once round. -/
theorem delRetract_home {r : KeyReport} (hkey : ∀ i, i < 6 → r.key i = 0) (hh : r.cbHead = 0) :
    ∀ (tail fuel : Nat), 0 < tail → tail ≤ 6 → tail ≤ fuel →
      delRetract fuel { r with cbTail := tail % 6 } = some { r with cbTail := 0 }
  | 0, _, hpos, _, _ => absurd hpos (by simp)
  | tail + 1, 0, _, _, hfuel => absurd hfuel (by simp)
  | tail + 1, fuel + 1, _, hle, hfuel => by
    have hlast : r.key (roDec (tail % 6)) = 0 :=
      hkey _ (by simp only [roDec, roSub, usb6kroKeys]; omega)
    rw [delRetract]
    simp only [roDec_mod]
    change (if r.key _ ≠ 0 then _ else if _ ≠ r.cbHead then _ else _) = _
    rw [if_neg (not_not_intro hlast)]
    cases tail with
    | zero => rw [if_neg (by simp [hh])]
    | succ tail =>
      rw [if_pos (by rw [hh]; omega)]
      exact delRetract_home hkey hh (tail + 1) fuel (by omega) (by omega) (by omega)

/-- The outer loop passes the codes `as` and comes to `code`. -/
theorem delScan_found {r : KeyReport} {code : BitVec 8} {bs : List (BitVec 8)} :
    ∀ (as : List (BitVec 8)) (i fuel : Nat), Segment r.key 6 i (as ++ code :: bs) →
      code ∉ as → as.length < fuel → r.cbTail = (i + (as ++ code :: bs).length) % 6 →
      (as ++ code :: bs).length ≤ 6 →
      r.delScan code fuel (i % 6) = r.delFound ((i + as.length) % 6)
  | _, _, 0, _, _, hfuel, _, _ => absurd hfuel (by simp)
  | [], i, fuel + 1, hs, _, _, _, _ => by
    rw [delScan, if_pos hs.1]
    rfl
  | a :: as, i, fuel + 1, hs, hmem, hfuel, ht, hlen => by
    have hne : r.key (i % 6) ≠ code := by
      rw [hs.1]
      exact fun he => hmem (he ▸ List.mem_cons_self)
    rw [List.cons_append, List.length_cons] at ht hlen
    have hpos : 0 < (as ++ code :: bs).length := List.length_pos_iff.mpr (by simp)
    have hgo : (i + 1) % 6 ≠ r.cbTail := by rw [ht]; omega
    rw [delScan, if_neg hne]
    simp only [roInc_mod]
    rw [if_pos hgo, delScan_found as (i + 1) fuel hs.2
      (fun hm => hmem (List.mem_cons_of_mem _ hm)) (Nat.lt_of_succ_lt_succ hfuel)
      (by rw [ht]; congr 1; omega) (by omega), List.length_cons]
    congr 2
    omega

/-- The loop of `del_key_byte` passes over all the other codes. -/
theorem delScan_absent {r : KeyReport} {code : BitVec 8} :
    ∀ (as : List (BitVec 8)) (i fuel : Nat), Segment r.key 6 i as → as ≠ [] → code ∉ as →
      as.length ≤ fuel → r.cbTail = (i + as.length) % 6 → as.length ≤ 6 →
      r.delScan code fuel (i % 6) = some r
  | [], _, _, _, hne, _, _, _, _ => absurd rfl hne
  | a :: as, _, 0, _, _, _, hfuel, _, _ => absurd hfuel (by simp)
  | a :: as, i, fuel + 1, hs, _, hmem, hfuel, ht, hlen => by
    have hne : r.key (i % 6) ≠ code := by
      rw [hs.1]
      exact fun he => hmem (he ▸ List.mem_cons_self)
    rw [List.length_cons] at ht hlen hfuel
    rw [delScan, if_neg hne]
    simp only [roInc_mod]
    by_cases hnil : as = []
    · subst hnil
      exact if_neg (not_not_intro ht.symm)
    · have hpos := List.length_pos_iff.mpr hnil
      have hgo : (i + 1) % 6 ≠ r.cbTail := by rw [ht]; omega
      rw [if_pos hgo]
      exact delScan_absent as (i + 1) fuel hs.2 hnil
        (fun hm => hmem (List.mem_cons_of_mem _ hm)) (by omega) (by rw [ht]; congr 1; omega)
        (by omega)

/-- A list that holds a code ends with its last one and holes. -/
theorem exists_last_held : ∀ {xs : List (BitVec 8)}, held xs ≠ [] →
    ∃ as x holes, xs = as ++ x :: List.replicate holes 0#8 ∧ x ≠ 0#8
  | xs, h => by
    rcases List.eq_nil_or_concat xs with rfl | ⟨ys, y, rfl⟩
    · exact absurd rfl h
    · rw [List.concat_eq_append] at h ⊢
      by_cases hy : y = 0#8
      · subst hy
        obtain ⟨as, x, holes, rfl, hx⟩ := @exists_last_held ys (by simpa using h)
        refine ⟨as, x, holes + 1, ?_, hx⟩
        rw [List.replicate_succ', List.append_assoc, List.cons_append]
      · exact ⟨ys, y, 0, rfl, hy⟩
termination_by xs => xs.length

/-- An array of zeros is zero from every index. -/
theorem segment_zeros {f : Nat → BitVec 8} {i : Nat}
    (h : Segment f 6 i (List.replicate 6 0#8)) : ∀ j, j < 6 → f j = 0 := by
  intro j hj
  have hmem := (h.perm (by simp)).mem_iff (a := f j)
  have hin := hmem.mp (List.mem_map_of_mem (List.mem_range.mpr hj))
  exact List.eq_of_mem_replicate hin

/-- Deleting the only code empties the ring. -/
theorem delFound_last {r : KeyReport} {i : Nat} (h : r.cbCount - 1 = 0) :
    r.delFound i =
      if i = 5 then
        delRetract usb6kroKeys { r.setKey i 0 with cbCount := 0, cbTail := 0, cbHead := 0 }
      else some { r.setKey i 0 with cbCount := 0, cbTail := 0, cbHead := 0 } := by
  have hdec : roDec 0 = 5 := rfl
  simp only [delFound, h, if_true, hdec]

/-- The ring after the code in slot `i` is overwritten. -/
def dug (r : KeyReport) (i : Nat) : KeyReport :=
  { r.setKey i 0 with cbCount := r.cbCount - 1 }

@[simp] theorem dug_cbHead (r : KeyReport) (i : Nat) : (r.dug i).cbHead = r.cbHead := rfl
@[simp] theorem dug_cbTail (r : KeyReport) (i : Nat) : (r.dug i).cbTail = r.cbTail := rfl

/-- Deleting one of several codes digs a hole, and moves the tail back when it
was the last one. -/
theorem delFound_more {r : KeyReport} {i : Nat} (h : r.cbCount - 1 ≠ 0) :
    r.delFound i =
      if i = roDec r.cbTail then delRetract usb6kroKeys (r.dug i) else some (r.dug i) := by
  simp only [delFound, if_neg h, setKey_cbTail]
  rfl

/-- Deleting the only code sends the ring home: both indices are zero and no
code is left. -/
theorem delFound_home {r : KeyReport} {as bs : List (BitVec 8)} {code : BitVec 8}
    (h : Rep r (as ++ code :: bs)) (hc : code ≠ 0#8) (has : held as = []) (hbs : held bs = []) :
    ∃ r', r.delFound ((r.cbHead + as.length) % 6) = some r' ∧ Rep r' [] ∧ SameOutside r r' := by
  have hhead := h.head
  have hfits := h.fits
  have hslots := h.slots
  have hcount := h.count
  rw [List.length_append, List.length_cons] at hfits
  rw [held_append, held_cons hc, has, hbs] at hcount
  have hone : r.cbCount - 1 = 0 := by
    change r.cbCount.toNat = 1 at hcount
    bv_omega
  have hzero : ∀ {xs : List (BitVec 8)}, held xs = [] → xs = List.replicate xs.length 0#8 := by
    intro xs hxs
    refine List.eq_replicate_iff.mpr ⟨rfl, fun x hx => ?_⟩
    by_contra hne
    have hin := (mem_held hne).mpr hx
    rw [hxs] at hin
    simp at hin
  rw [List.append_assoc, List.cons_append] at hslots
  have hset := segment_setKey hslots (by simp; omega) 0#8
  rw [hzero has, hzero hbs, List.replicate_append_replicate, ← List.replicate_succ,
    List.replicate_append_replicate] at hset
  have hsum : as.length + (bs.length + (6 - (as ++ code :: bs).length) + 1) = 6 := by
    rw [List.length_append, List.length_cons]
    omega
  simp only [List.length_append, List.length_cons, List.length_replicate] at hset hsum
  rw [hsum] at hset
  have hkeys := segment_zeros hset
  have hsame := sameOutside_setKey r (Nat.mod_lt (r.cbHead + as.length) (by omega)) 0#8
  generalize (r.cbHead + as.length) % 6 = i at hkeys hsame ⊢
  refine ⟨{ r.setKey i 0 with cbCount := 0, cbTail := 0, cbHead := 0 }, ?_, ?_, hsame⟩
  · rw [delFound_last hone]
    split
    · exact delRetract_home (r := { r.setKey i 0 with cbCount := 0, cbTail := 0, cbHead := 0 })
        hkeys rfl 6 6 (by omega) (by omega) (by omega)
    · rfl
  · refine ⟨by simp, by simp, rfl, ?_, rfl, by simp, fun _ => rfl, List.nodup_nil⟩
    have hk := fun p (hp : p < 6) => hkeys p hp
    simp only [List.nil_append, List.length_nil, Nat.sub_zero, List.replicate, segment_cons,
      segment_nil]
    exact ⟨hk 0 (by omega), hk 1 (by omega), hk 2 (by omega), hk 3 (by omega),
      hk 4 (by omega), hk 5 (by omega), trivial⟩

/-- After a hole is dug the ring holds the other codes. -/
theorem dug_spec {r : KeyReport} {as bs : List (BitVec 8)} {code : BitVec 8}
    (h : Rep r (as ++ code :: bs)) (hc : code ≠ 0#8) (hne : held as ++ held bs ≠ []) :
    let r' := r.dug ((r.cbHead + as.length) % 6)
    Segment r'.key 6 r.cbHead
        (as ++ 0#8 :: (bs ++ List.replicate (5 - (as.length + bs.length)) 0#8)) ∧
      r'.cbCount.toNat = (held as ++ held bs).length ∧ (held as ++ held bs).Nodup ∧
      SameOutside r r' ∧ r.cbCount - 1 ≠ 0 := by
  have hhead := h.head
  have hfits := h.fits
  have hslots := h.slots
  have hcount := h.count
  have hnodup := h.nodup
  have hle := held_length_le as
  have hle' := held_length_le bs
  have hlen := List.length_pos_iff.mpr hne
  rw [held_append, held_cons hc] at hcount hnodup
  rw [List.append_assoc, List.cons_append] at hslots
  rw [List.length_append, List.length_cons] at hfits hslots hcount
  rw [List.length_append] at hlen ⊢
  refine ⟨?_, ?_, hnodup.sublist (by simp), sameOutside_setKey r (by omega) 0, ?_⟩
  · have hset := segment_setKey hslots (by simp; omega) 0#8
    rw [show 6 - (as.length + (bs.length + 1)) = 5 - (as.length + bs.length) by omega] at hset
    exact hset
  · change (r.cbCount - 1).toNat = _
    bv_omega
  · have hgt : 1 < r.cbCount.toNat := by omega
    bv_omega

/-- Deleting a code that is not in the last place leaves a hole. -/
theorem delFound_hole {r : KeyReport} {as bs : List (BitVec 8)} {code : BitVec 8}
    (h : Rep r (as ++ code :: bs)) (hc : code ≠ 0#8) (hne : held as ++ held bs ≠ [])
    (hbs : bs ≠ []) :
    ∃ r', r.delFound ((r.cbHead + as.length) % 6) = some r' ∧ Rep r' (as ++ 0#8 :: bs) ∧
      SameOutside r r' := by
  obtain ⟨hset, hcount, hnodup, hsame, hmore⟩ := dug_spec h hc hne
  have hhead := h.head
  have hfits := h.fits
  have htail := h.tail
  have hlen := List.length_pos_iff.mpr hbs
  rw [List.length_append, List.length_cons] at hfits htail
  have hdec : roDec r.cbTail = (r.cbHead + (as.length + bs.length)) % 6 := by
    rw [htail, ← Nat.add_assoc, ← Nat.add_assoc, roDec_mod, Nat.add_assoc]
  refine ⟨r.dug ((r.cbHead + as.length) % 6), ?_,
    ⟨hhead, ?_, ?_, ?_, ?_, fun ys y he => ?_, fun he => ?_, ?_⟩, hsame⟩
  · rw [delFound_more hmore, hdec]
    exact if_neg (by omega)
  · rw [List.length_append, List.length_cons]
    exact hfits
  · rw [List.length_append, List.length_cons]
    exact htail
  · rw [List.length_append, List.length_cons, List.append_assoc, List.cons_append]
    rw [show 6 - (as.length + (bs.length + 1)) = 5 - (as.length + bs.length) by omega]
    exact hset
  · rw [held_append, held_zero_cons]
    exact hcount
  · -- the last place is as before
    obtain ⟨zs, z, rfl⟩ := (List.eq_nil_or_concat bs).resolve_left hbs
    rw [List.concat_eq_append] at h he
    rw [← List.cons_append, ← List.append_assoc] at h he
    have hzy := (List.append_inj' he rfl).2
    rw [← (List.cons.inj hzy).1]
    exact h.last _ z rfl
  · simp at he
  · rw [held_append, held_zero_cons]
    exact hnodup

/-- Deleting the code in the last place drops the holes before it. -/
theorem delFound_tail {r : KeyReport} {as : List (BitVec 8)} {code : BitVec 8}
    (h : Rep r (as ++ [code])) (hc : code ≠ 0#8) (hne : held as ≠ []) :
    ∃ r' xs', r.delFound ((r.cbHead + as.length) % 6) = some r' ∧ Rep r' xs' ∧
      held xs' = held as ∧ SameOutside r r' := by
  obtain ⟨hset, hcount, hnodup, hsame, hmore⟩ := dug_spec h hc (by simpa using hne)
  have hhead := h.head
  have hfits := h.fits
  have htail := h.tail
  obtain ⟨ys, y, holes, rfl, hy⟩ := exists_last_held hne
  have hheld : held (ys ++ [y]) = held (ys ++ y :: List.replicate holes 0#8) := by
    rw [held_append, held_append, held_cons hy, held_cons hy, held_replicate, held_nil]
  have hlen : (ys ++ y :: List.replicate holes 0#8).length = ys.length + 1 + holes := by
    rw [List.length_append, List.length_cons, List.length_replicate]
    omega
  rw [List.length_append, List.length_singleton, hlen] at hfits htail
  rw [List.length_nil, Nat.add_zero, List.nil_append, List.append_assoc, List.cons_append,
    ← List.singleton_append (x := 0#8), ← List.append_assoc (List.replicate holes 0#8),
    ← List.replicate_succ'] at hset
  rw [hlen] at hset hcount hsame ⊢
  have hret := delRetract_spec hy (holes + 1) usb6kroKeys
    (r.dug ((r.cbHead + (ys.length + 1 + holes)) % 6)) (by omega)
    (by simp only [usb6kroKeys]; omega) hset (by omega)
    (by rw [dug_cbTail, dug_cbHead, htail]; congr 1; omega) hhead
  have hdec : roDec r.cbTail = (r.cbHead + (ys.length + 1 + holes)) % 6 := by
    rw [htail, ← Nat.add_assoc, roDec_mod]
  rw [delFound_more hmore, hdec, if_pos rfl, hret]
  refine ⟨_, ys ++ [y], rfl, ⟨hhead, ?_, ?_, ?_, ?_, fun zs z he => ?_, fun he => ?_, ?_⟩,
    hheld, hsame⟩
  · rw [List.length_append, List.length_singleton]
    omega
  · rw [List.length_append, List.length_singleton, ← Nat.add_assoc]
    rfl
  · rw [List.replicate_append_replicate] at hset
    rw [List.length_append, List.length_singleton, List.append_assoc, List.singleton_append]
    rw [show 6 - (ys.length + 1) = holes + 1 + (5 - (ys.length + 1 + holes)) by omega]
    exact hset
  · rw [hheld]
    simpa using hcount
  · have hzy := (List.append_inj' he rfl).2
    rw [← (List.cons.inj hzy).1]
    exact hy
  · simp at he
  · rw [hheld]
    simpa using hnodup

/-- **`del_key_byte` erases a key**, and its loops end. -/
theorem delKeyByte_spec {r : KeyReport} {xs : List (BitVec 8)} (h : Rep r xs)
    {code : BitVec 8} (hc : code ≠ 0#8) :
    ∃ r' xs', r.delKeyByte? code = some r' ∧ Rep r' xs' ∧
      held xs' = (held xs).erase code ∧ SameOutside r r' := by
  have hfits := h.fits
  rw [delKeyByte?]
  by_cases hz : r.cbCount = 0
  · obtain rfl := h.count_eq_zero.mp hz
    exact ⟨r, [], if_neg (not_not_intro hz), h, rfl, fun _ _ => rfl⟩
  · have hne : xs ≠ [] := fun he => hz (h.count_eq_zero.mpr he)
    have hslots := (segment_append.mp h.slots).1
    rw [if_pos hz]
    by_cases hmem : code ∈ xs
    · obtain ⟨as, bs, rfl, has⟩ := List.eq_append_cons_of_mem hmem
      have herase : (held (as ++ code :: bs)).erase code = held as ++ held bs := by
        rw [held_append, held_cons hc,
          List.erase_append_right _ fun hm => has ((mem_held hc).mp hm), List.erase_cons_head]
      have hscan := delScan_found as r.cbHead usb6kroKeys hslots has
        (by rw [List.length_append, List.length_cons] at hfits; simp only [usb6kroKeys]; omega)
        h.tail hfits
      rw [Nat.mod_eq_of_lt h.head] at hscan
      rw [hscan, herase]
      by_cases hmore : held as ++ held bs = []
      · obtain ⟨hlast, hrest⟩ := List.append_eq_nil_iff.mp hmore
        obtain ⟨r', hr', hrep, hsame⟩ := delFound_home h hc hlast hrest
        exact ⟨r', [], hr', hrep, hmore.symm, hsame⟩
      · by_cases hbs : bs = []
        · subst hbs
          rw [held_nil, List.append_nil] at hmore ⊢
          exact delFound_tail h hc hmore
        · obtain ⟨r', hr', hrep, hsame⟩ := delFound_hole h hc hmore hbs
          exact ⟨r', _, hr', hrep, by rw [held_append, held_zero_cons], hsame⟩
    · have hscan := delScan_absent xs r.cbHead usb6kroKeys hslots hne hmem h.fits h.tail h.fits
      rw [Nat.mod_eq_of_lt h.head] at hscan
      refine ⟨r, xs, hscan, h, ?_, fun _ _ => rfl⟩
      rw [List.erase_of_not_mem fun hm => hmem ((mem_held hc).mp hm)]

end KeyReport

end Ch583Kbd.Tmk
