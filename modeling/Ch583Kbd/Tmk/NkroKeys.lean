/-
Ch583Kbd.Tmk.NkroKeys — the bitmap of NKRO mode and the ring of 6KRO mode
hold the same keys.

Both lie in the same bytes of the report. Each is related to the set of the
codes that are held: the bitmap without further ado, the ring through the
list of the most recent codes (`foldl_ring`), which drops none as long as
no more than six are held.
-/
import Ch583Kbd.Tmk.SixKeys
import Mathlib.Data.Finset.Card

namespace Ch583Kbd.Tmk

open Ch583Kbd.Lib KeyReport

/-! ## The bitmap -/

namespace KeyReport

/-- The byte `raw[j]`. -/
def byte (r : KeyReport) (j : Nat) : BitVec 8 := r.raw[j]?.getD 0

/-- `code >> 3` and `code & 7`. -/
def bitsByte (code : BitVec 8) : Nat := (code >>> 3).toNat
def bitsBit (code : BitVec 8) : Nat := (code &&& 7).toNat

/-- The bit of the code in `nkro.bits`. -/
def hasBit (r : KeyReport) (code : BitVec 8) : Bool :=
  bitsByte code < keyboardReportBits && (r.byte (1 + bitsByte code)).getLsbD (bitsBit code)

theorem bitsByte_eq (code : BitVec 8) : bitsByte code = code.toNat / 8 := by
  rw [bitsByte, BitVec.toNat_ushiftRight, Nat.shiftRight_eq_div_pow]

theorem bitsBit_eq (code : BitVec 8) : bitsBit code = code.toNat % 8 := by
  rw [bitsBit, BitVec.toNat_and]
  exact Nat.and_two_pow_sub_one_eq_mod _ 3

theorem bitsBit_lt (code : BitVec 8) : bitsBit code < 8 := by
  rw [bitsBit_eq]
  exact Nat.mod_lt _ (by decide)

/-- The byte and the bit of a code determine it. -/
theorem code_eq_iff {c d : BitVec 8} :
    d = c ↔ bitsByte d = bitsByte c ∧ bitsBit d = bitsBit c := by
  rw [bitsByte_eq, bitsByte_eq, bitsBit_eq, bitsBit_eq]
  constructor
  · rintro rfl
    exact ⟨rfl, rfl⟩
  · intro h
    apply BitVec.eq_of_toNat_eq
    omega

/-- Changing the bit of a code changes its byte only. -/
theorem byte_modifyBits (r : KeyReport) {code : BitVec 8} (f : BitVec 8 → BitVec 8) (j : Nat)
    (hc : bitsByte code < keyboardReportBits) : (r.modifyBits code f).byte (1 + j) =
      if j = bitsByte code then f (r.byte (1 + j)) else r.byte (1 + j) := by
  have hlt : 1 + bitsByte code < keyboardReportSize := by
    simp only [keyboardReportBits] at hc
    simp only [keyboardReportSize]
    omega
  have hmodify : r.modifyBits code f =
      { r with raw := r.raw.setIfInBounds (1 + bitsByte code) (f (r.byte (1 + bitsByte code))) } :=
    if_pos hc
  rw [hmodify, byte, Vector.getElem?_setIfInBounds]
  by_cases hj : j = bitsByte code
  · rw [if_pos (by omega), if_pos (by omega), if_pos hj, hj]
    rfl
  · rw [if_neg (by omega), if_neg hj]
    rfl

/-- Changing the bit of a code changes the bits of its byte only. -/
theorem hasBit_modifyBits (r : KeyReport) {code : BitVec 8} (f : BitVec 8 → BitVec 8)
    (hc : bitsByte code < keyboardReportBits) (d : BitVec 8) : (r.modifyBits code f).hasBit d =
      if bitsByte d = bitsByte code then (f (r.byte (1 + bitsByte d))).getLsbD (bitsBit d)
      else r.hasBit d := by
  rw [hasBit, byte_modifyBits r f _ hc]
  split
  · next hd => simp [hd, hc]
  · rfl

theorem getLsbD_bit {k : Nat} (m : Nat) (hk : k < 8) : (1#8 <<< m).getLsbD k = decide (k = m) := by
  have h0 : decide (k - m = 0) = decide (k ≤ m) := by simp [Nat.sub_eq_zero_iff_le]
  rw [BitVec.getLsbD_shiftLeft, BitVec.getLsbD_one, h0]
  by_cases h : k = m
  · subst h
    simp [hk]
  · simp [h]
    omega

/-- `add_key_bit` sets the bit of its code and no other. -/
theorem hasBit_addKeyBit (r : KeyReport) {code : BitVec 8}
    (hc : bitsByte code < keyboardReportBits) (d : BitVec 8) :
    (r.addKeyBit code).hasBit d = true ↔ d = code ∨ r.hasBit d = true := by
  rw [addKeyBit, hasBit_modifyBits r _ hc, code_eq_iff (c := code)]
  by_cases hd : bitsByte d = bitsByte code
  · rw [if_pos hd, BitVec.getLsbD_or]
    show (_ || (1#8 <<< bitsBit code).getLsbD (bitsBit d)) = true ↔ _
    rw [getLsbD_bit _ (bitsBit_lt d)]
    simp [hasBit, hd, hc, or_comm]
  · simp [hd]

/-- `del_key_bit` clears the bit of its code and no other. -/
theorem hasBit_delKeyBit (r : KeyReport) {code : BitVec 8}
    (hc : bitsByte code < keyboardReportBits) (d : BitVec 8) :
    (r.delKeyBit code).hasBit d = true ↔ d ≠ code ∧ r.hasBit d = true := by
  rw [delKeyBit, hasBit_modifyBits r _ hc, ne_eq, code_eq_iff (c := code)]
  by_cases hd : bitsByte d = bitsByte code
  · rw [if_pos hd, BitVec.getLsbD_and, BitVec.getLsbD_not]
    show (_ && (_ && !(1#8 <<< bitsBit code).getLsbD (bitsBit d))) = true ↔ _
    rw [getLsbD_bit _ (bitsBit_lt d)]
    simp [hasBit, hd, hc, bitsBit_lt d, and_comm]
  · simp [hd]

/-! ## `has_anykey` -/

/-- `has_anykey` finds a byte that is not zero. -/
theorem hasAnykey_ne_zero (r : KeyReport) :
    r.hasAnykey ≠ 0 ↔ ∃ j < keyboardReportBits, r.byte (1 + j) ≠ 0 := by
  have hget : ∀ j, (r.raw.toList.drop 1)[j]? = r.raw[1 + j]? := by
    intro j
    rw [List.getElem?_drop, Vector.getElem?_toList]
  rw [hasAnykey, ← Nat.pos_iff_ne_zero, List.countP_pos_iff]
  constructor
  · rintro ⟨b, hb, hne⟩
    obtain ⟨j, hj⟩ := List.mem_iff_getElem?.mp hb
    have hlt := (List.getElem?_eq_some_iff.mp hj).1
    rw [hget] at hj
    refine ⟨j, by simpa [keyboardReportBits] using hlt, ?_⟩
    rw [byte, hj]
    simpa using hne
  · rintro ⟨j, hj, hne⟩
    have hlt : 1 + j < keyboardReportSize := by
      simp only [keyboardReportBits] at hj
      simp only [keyboardReportSize]
      omega
    refine ⟨r.byte (1 + j), List.mem_iff_getElem?.mpr ⟨j, ?_⟩, by simpa using hne⟩
    rw [hget, byte, Vector.getElem?_eq_getElem hlt]
    rfl

/-- In NKRO mode `has_anykey` finds a code that is held. -/
theorem hasAnykey_nkro (r : KeyReport) : r.hasAnykey ≠ 0 ↔ ∃ c, r.hasBit c = true := by
  rw [hasAnykey_ne_zero]
  constructor
  · rintro ⟨j, hj, hne⟩
    by_contra hall
    apply hne
    apply BitVec.eq_of_getLsbD_eq
    intro m hm
    have hj' : j < 27 := hj
    have hno := not_exists.mp hall (BitVec.ofNat 8 (8 * j + m))
    rw [hasBit, bitsByte_eq, bitsBit_eq, BitVec.toNat_ofNat,
      show (8 * j + m) % 2 ^ 8 / 8 = j by omega, show (8 * j + m) % 2 ^ 8 % 8 = m by omega] at hno
    simpa [hj] using hno
  · rintro ⟨c, hc⟩
    simp only [hasBit, Bool.and_eq_true, decide_eq_true_eq] at hc
    refine ⟨_, hc.1, fun hzero => ?_⟩
    rw [hzero] at hc
    simp at hc

/-- In 6KRO mode, where the other bytes are zero, `has_anykey` finds a slot with
a code. -/
theorem hasAnykey_ring {r : KeyReport} (hout : ∀ j, j < 2 ∨ 8 ≤ j → r.byte j = 0) :
    r.hasAnykey ≠ 0 ↔ ∃ i < 6, r.key i ≠ 0 := by
  rw [hasAnykey_ne_zero]
  constructor
  · rintro ⟨j, hj, hne⟩
    have hin : ¬ (1 + j < 2 ∨ 8 ≤ 1 + j) := fun h => hne (hout _ h)
    refine ⟨j - 1, by omega, ?_⟩
    rwa [key, show 2 + (j - 1) = 1 + j by omega]
  · rintro ⟨i, hi, hne⟩
    refine ⟨1 + i, by simp only [keyboardReportBits]; omega, ?_⟩
    rwa [byte, show 1 + (1 + i) = 2 + i by omega]

end KeyReport

/-! ## The codes that are held -/

namespace KeyOp

def code : KeyOp → BitVec 8
  | .add code => code
  | .del code => code

/-- What the operation means for the set of held codes. -/
def onSet (held : Finset (BitVec 8)) : KeyOp → Finset (BitVec 8)
  | .add code => insert code.val held
  | .del code => held.erase code.val

end KeyOp

def heldCodes (ops : List KeyOp) : Finset (BitVec 8) := ops.foldl KeyOp.onSet ∅

/-- **The bitmap holds the held codes**, by induction over the operations. -/
theorem foldl_bits (ops : List KeyOp) (hcodes : ∀ op ∈ ops, isKey op.code = true) :
    ∀ (s : ActionState) (held : Finset (BitVec 8)), s.nkroActive = true →
      (∀ c, s.keyReport.hasBit c = true ↔ c ∈ held) →
      ∀ c, (runKeys (ops.map .key) s).keyReport.hasBit c = true ↔
        c ∈ ops.foldl KeyOp.onSet held := by
  induction ops with
  | nil => exact fun _ _ _ h => h
  | cons op ops ih =>
    intro s held hs h
    have hop : KeyReport.bitsByte op.code < keyboardReportBits := by
      have hkey := hcodes op List.mem_cons_self
      simp only [isKey, Bool.and_eq_true, decide_eq_true_eq, BitVec.le_def] at hkey
      have hle : op.code.toNat ≤ 164 := hkey.2
      rw [KeyReport.bitsByte_eq]
      show _ < 27
      omega
    refine ih (fun op' h' => hcodes op' (List.mem_cons_of_mem _ h')) (op.apply s) (op.onSet held)
      ?_ fun c => ?_
    · cases op <;> exact hs
    · cases op with
      | add code =>
        have hadd : ((KeyOp.add code).apply s).keyReport = s.keyReport.addKeyBit code := by
          simp [KeyOp.apply, ActionState.addKey, hs]
        rw [hadd]
        refine (KeyReport.hasBit_addKeyBit s.keyReport hop c).trans ?_
        rw [h, KeyOp.onSet, Finset.mem_insert]
        rfl
      | del code =>
        have hdel : ((KeyOp.del code).apply s).keyReport = s.keyReport.delKeyBit code := by
          simp [KeyOp.apply, ActionState.delKey, hs]
        rw [hdel]
        refine (KeyReport.hasBit_delKeyBit s.keyReport hop c).trans ?_
        rw [h, KeyOp.onSet, Finset.mem_erase]
        rfl

/-- As long as no more than six are held, so does the list of the most
recent six. -/
theorem foldl_recent (ops : List KeyOp) : ∀ (l : List (BitVec 8)) (held : Finset (BitVec 8)),
    l.Nodup → (∀ c, c ∈ l ↔ c ∈ held) →
    (∀ pre, pre <+: ops → (pre.foldl KeyOp.onSet held).card ≤ 6) →
    ∀ c, c ∈ ops.foldl KeyOp.onList l ↔ c ∈ ops.foldl KeyOp.onSet held := by
  induction ops with
  | nil => exact fun _ _ _ h _ => h
  | cons op ops ih =>
    intro l held hnodup h hsix
    have hstep : (op.onList l).Nodup ∧ ∀ c, c ∈ op.onList l ↔ c ∈ op.onSet held := by
      cases op with
      | del code =>
        refine ⟨hnodup.erase _, fun c => ?_⟩
        rw [KeyOp.onList, KeyOp.onSet, hnodup.mem_erase_iff, h, Finset.mem_erase]
      | add code =>
        -- there is room, because with this code at most six are held
        have hroom : code.val ∈ l ∨ l.length < 6 := by
          refine or_iff_not_imp_left.mpr fun hin => ?_
          have hcard : held.card = l.length := by
            rw [show held = l.toFinset from Finset.ext fun c => by rw [List.mem_toFinset, h],
              List.toFinset_card_of_nodup hnodup]
          have hnew := hsix [.add code] ⟨ops, rfl⟩
          rw [List.foldl_cons, List.foldl_nil, KeyOp.onSet,
            Finset.card_insert_of_notMem (mt (h _).mpr hin), hcard] at hnew
          exact hnew
        refine ⟨nodup_recent_of_room hnodup hroom, fun c => ?_⟩
        rw [KeyOp.onList, KeyOp.onSet, mem_recent_of_room hroom, Finset.mem_insert, h]
    exact ih _ _ hstep.1 hstep.2 fun pre hpre => hsix (op :: pre)
      (List.cons_prefix_cons.mpr ⟨rfl, hpre⟩)

/-- **NKRO and 6KRO agree.** As long as no more than six codes are held at a
time, the codes with their bit set after a run in NKRO mode are the codes
in the six slots after the same run in 6KRO mode, and `has_anykey` answers
alike. -/
theorem nkro_agrees (ops : List KeyOp) (hcodes : ∀ op ∈ ops, isKey op.code = true)
    (hsix : ∀ pre, pre <+: ops → (heldCodes pre).card ≤ 6) :
    let nkro := (runKeys (ops.map .key) { keyboardNkro := true }).keyReport
    let ring := (runKeys (ops.map .key) {}).keyReport
    (∀ c, nkro.hasBit c = true ↔ c ≠ 0 ∧ ∃ i < 6, ring.key i = c) ∧
      (nkro.hasAnykey ≠ 0 ↔ ring.hasAnykey ≠ 0) := by
  intro nkro ring
  obtain ⟨xs, -, hrep, hheld, hsame⟩ := foldl_ring ops {} [] rfl rep_init
  have hinit : ∀ c, ({} : KeyReport).hasBit c = true ↔ c ∈ (∅ : Finset (BitVec 8)) := by
    decide
  have hbits : ∀ c, nkro.hasBit c = true ↔ c ∈ heldCodes ops :=
    foldl_bits ops hcodes { keyboardNkro := true } ∅ rfl hinit
  have hlist : ∀ c, c ∈ held xs ↔ c ∈ heldCodes ops := by
    rw [hheld]
    exact foldl_recent ops [] ∅ List.nodup_nil (by simp) hsix
  have hagree : ∀ c, nkro.hasBit c = true ↔ c ≠ 0 ∧ ∃ i < 6, ring.key i = c := by
    intro c
    rw [hbits, ← hlist]
    constructor
    · intro hin
      have hc : c ≠ 0 := by simpa using List.of_mem_filter hin
      exact ⟨hc, (hrep.mem_slots hc).mpr hin⟩
    · rintro ⟨hc, hslot⟩
      exact (hrep.mem_slots hc).mp hslot
  refine ⟨hagree, ?_⟩
  have hout : ∀ j, j < 2 ∨ 8 ≤ j → ring.byte j = 0 := by
    intro j hj
    have h : ring.byte j = ({} : KeyReport).byte j := congrArg (·.getD 0) (hsame j hj)
    rw [h, KeyReport.byte, Vector.getElem?_replicate]
    split <;> rfl
  rw [hasAnykey_nkro, hasAnykey_ring hout]
  simp only [hagree]
  constructor
  · rintro ⟨c, hc, i, hi, heq⟩
    exact ⟨i, hi, heq ▸ hc⟩
  · rintro ⟨i, hi, hne⟩
    exact ⟨_, hne, i, hi, rfl⟩

/-- Two keys, the second pressed again while the first is released. -/
theorem nkro_agrees_three :
    let ops : List KeyOp := [.add ⟨4, by decide⟩, .add ⟨5, by decide⟩, .add ⟨5, by decide⟩,
      .del ⟨4, by decide⟩]
    let nkro := (runKeys (ops.map .key) { keyboardNkro := true }).keyReport
    let ring := (runKeys (ops.map .key) {}).keyReport
    (∀ c, nkro.hasBit c = true ↔ c ≠ 0 ∧ ∃ i < 6, ring.key i = c) ∧
      (nkro.hasAnykey ≠ 0 ↔ ring.hasAnykey ≠ 0) :=
  nkro_agrees _ (by decide) fun pre hpre => by
    rw [← List.mem_inits] at hpre
    revert pre
    decide

end Ch583Kbd.Tmk
