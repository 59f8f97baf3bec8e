/-
Ch583Kbd.Tmk.FirstKey — `get_first_key` of `action_util.c`.

It answers `none` where its loop over the ring has no end or it reads
outside `nkro.bits`. The ring's loop finds the oldest key, also past holes;
the loop over the bits runs to their end when none is set, and then the
byte behind them is read.
-/
import Ch583Kbd.Tmk.ActionSteps
import Ch583Kbd.Tmk.NkroKeys
import Mathlib.Tactic.ByContra

namespace Ch583Kbd.Tmk

open Ch583Kbd.Lib

/-- `biton`: the place of the highest bit that is set. -/
def biton (bits : BitVec 8) : BitVec 8 :=
  let (bits, n) := if bits >>> 4 ≠ 0 then (bits >>> 4, (4 : BitVec 8)) else (bits, 0)
  let (bits, n) := if bits >>> 2 ≠ 0 then (bits >>> 2, n + 2) else (bits, n)
  if bits >>> 1 ≠ 0 then n + 1 else n

namespace KeyReport

/-- Read `nkro.bits[i]`. -/
def bits? (r : KeyReport) (i : Nat) : Option (BitVec 8) :=
  if i < keyboardReportBits then some (r.byte (1 + i)) else none

/-- The `for` of `get_first_key`, with `n` bytes left to look at. -/
def firstBits (r : KeyReport) : (n i : Nat) → Nat
  | 0, i => i
  | n + 1, i => if r.byte (1 + i) = 0 then firstBits r n (i + 1) else i

/-- The `do … while` of `get_first_key`, from slot `i`. -/
def firstSlot (r : KeyReport) : (fuel i : Nat) → Option Nat
  | 0, _ => none
  | fuel + 1, i =>
    if r.key i ≠ 0 then some i
    else
      let i := roInc i
      if i ≠ r.cbTail then firstSlot r fuel i else some i

end KeyReport

open KeyReport

def ActionState.getFirstKey? (s : ActionState) : Option (BitVec 8) :=
  let r := s.keyReport
  if s.nkroActive then
    let i := r.firstBits keyboardReportBits 0
    (r.bits? i).map fun b => BitVec.ofNat 8 (i <<< 3) ||| biton b
  else (r.firstSlot usb6kroKeys r.cbHead).map r.key

/-! ## The ring -/

/-- The search from the head finds the first slot with a code, within the length
of the segment. -/
theorem KeyReport.firstSlot_spec {r : KeyReport} : ∀ (ys : List (BitVec 8)) (i fuel : Nat),
    Segment r.key 6 i ys → held ys ≠ [] → ys.length ≤ 6 → ys.length ≤ fuel →
    r.cbTail = (i + ys.length) % 6 →
    (r.firstSlot fuel (i % 6)).map r.key = some ((held ys).headD 0)
  | [], _, _, _, hne, _, _, _ => absurd rfl hne
  | y :: ys, i, 0, _, _, _, hfuel, _ => absurd hfuel (by simp)
  | y :: ys, i, fuel + 1, hs, hne, hlen, hfuel, ht => by
    obtain ⟨hy, hys⟩ := hs
    rw [firstSlot, hy]
    by_cases hz : y = 0#8
    · subst hz
      rw [held_zero_cons] at hne ⊢
      rw [List.length_cons] at hlen hfuel ht
      have hpos : 0 < ys.length := List.length_pos_iff.mpr fun hnil => hne (by rw [hnil]; rfl)
      have hgo : (i + 1) % 6 ≠ r.cbTail := by rw [ht]; omega
      rw [if_neg (show ¬(0#8 ≠ 0) from fun h => h rfl), roInc_mod]
      dsimp only
      rw [if_pos hgo]
      exact firstSlot_spec ys (i + 1) fuel hys hne (by omega) (by omega)
        (by rw [ht]; congr 1; omega)
    · rw [if_pos (show y ≠ 0 from hz), Option.map_some, hy, held_cons hz, List.headD_cons]

/-- In an empty ring the loop comes round to a slot that is zero. -/
theorem KeyReport.firstSlot_empty {r : KeyReport} (h : Rep r []) :
    (r.firstSlot usb6kroKeys r.cbHead).map r.key = some 0 := by
  have hkey : ∀ i < 6, r.key i = 0 := h.noKey.mpr rfl
  have htail : r.cbTail = 0 := by rw [h.tail, h.home rfl]; rfl
  rw [h.home rfl]
  simp [firstSlot, usb6kroKeys, roInc, roAdd, hkey, htail]

/-- `get_first_key` finds the oldest code that is held. -/
theorem KeyReport.Rep.firstSlot {r : KeyReport} {xs : List (BitVec 8)} (h : Rep r xs) :
    (r.firstSlot usb6kroKeys r.cbHead).map r.key = some ((held xs).headD 0) := by
  by_cases hnil : held xs = []
  · obtain rfl := h.eq_nil hnil
    exact firstSlot_empty h
  · have hslots := (segment_append.mp h.slots).1
    have hspec := firstSlot_spec xs r.cbHead 6 hslots hnil h.fits h.fits h.tail
    rwa [Nat.mod_eq_of_lt h.head] at hspec

/-! ## The bitmap -/

/-- `biton` answers a bit that is set, for every byte but zero. -/
theorem biton_spec : ∀ bits : BitVec 8, bits ≠ 0 →
    (biton bits).toNat < 8 ∧ bits.getLsbD (biton bits).toNat = true := by decide

/-- The code that is put together from a byte's index and a bit's. -/
theorem toNat_code {i : Nat} (hi : i < keyboardReportBits) {n : BitVec 8} (hn : n.toNat < 8) :
    (BitVec.ofNat 8 (i <<< 3) ||| n).toNat = 8 * i + n.toNat := by
  have hi' : i < 27 := hi
  have hshift : i <<< 3 % 256 = i <<< 3 := by
    rw [Nat.shiftLeft_eq]
    omega
  rw [BitVec.toNat_or, BitVec.toNat_ofNat, hshift, ← Nat.shiftLeft_add_eq_or_of_lt hn,
    Nat.shiftLeft_eq, Nat.mul_comm]

/-- The code made of a byte of the bitmap and its bit is held. -/
theorem KeyReport.hasBit_code (r : KeyReport) {i : Nat} (hi : i < keyboardReportBits)
    (hne : r.byte (1 + i) ≠ 0) :
    r.hasBit (BitVec.ofNat 8 (i <<< 3) ||| biton (r.byte (1 + i))) = true := by
  obtain ⟨hlt, hbit⟩ := biton_spec (r.byte (1 + i)) hne
  have hbyte : bitsByte (BitVec.ofNat 8 (i <<< 3) ||| biton (r.byte (1 + i))) = i := by
    rw [bitsByte_eq, toNat_code hi hlt]
    omega
  have hplace : bitsBit (BitVec.ofNat 8 (i <<< 3) ||| biton (r.byte (1 + i))) =
      (biton (r.byte (1 + i))).toNat := by
    rw [bitsBit_eq, toNat_code hi hlt]
    omega
  rw [hasBit, hbyte, hplace, decide_eq_true hi, hbit]
  rfl

/-- The `for` stops at a byte that is not zero, or at its end. -/
theorem KeyReport.firstBits_spec (r : KeyReport) (n i : Nat) :
    r.firstBits n i ≤ i + n ∧ (r.firstBits n i < i + n → r.byte (1 + r.firstBits n i) ≠ 0) ∧
      (r.firstBits n i = i + n → ∀ k, i ≤ k → k < i + n → r.byte (1 + k) = 0) := by
  induction n generalizing i with
  | zero => exact ⟨Nat.le_refl i, fun h => absurd h (Nat.lt_irrefl i), fun _ k _ _ => by omega⟩
  | succ n ih =>
    obtain ⟨hle, hstop, hend⟩ := ih (i + 1)
    have hsum : i + 1 + n = i + (n + 1) := by omega
    rw [hsum] at hle hstop hend
    rw [firstBits]
    split
    case isTrue hzero =>
      refine ⟨hle, hstop, fun h k hk hkn => ?_⟩
      by_cases heq : k = i
      · rw [heq]
        exact hzero
      · exact hend h k (by omega) hkn
    case isFalse hne => exact ⟨by omega, fun _ => hne, fun h => by omega⟩

/-- In NKRO mode: a code whose bit is set; without one the read is outside. -/
theorem ActionState.getFirstKey_nkro {s : ActionState} (hs : s.nkroActive = true) :
    ((∃ c, s.keyReport.hasBit c = true) →
        ∃ c, s.getFirstKey? = some c ∧ s.keyReport.hasBit c = true) ∧
      ((¬∃ c, s.keyReport.hasBit c = true) → s.getFirstKey? = none) := by
  obtain ⟨hle, hstop, hend⟩ := s.keyReport.firstBits_spec keyboardReportBits 0
  rw [Nat.zero_add] at hle hstop hend
  rw [← hasAnykey_nkro, hasAnykey_ne_zero, getFirstKey?, if_pos hs]
  dsimp only
  generalize s.keyReport.firstBits keyboardReportBits 0 = i at hle hstop hend ⊢
  rw [bits?]
  constructor
  · rintro ⟨j, hj, hne⟩
    have hi : i < keyboardReportBits := by
      refine Nat.lt_of_le_of_ne hle fun heq => ?_
      exact hne (hend heq j (Nat.zero_le j) hj)
    rw [if_pos hi]
    exact ⟨_, rfl, s.keyReport.hasBit_code hi (hstop hi)⟩
  · intro hnone
    have hi : ¬i < keyboardReportBits := fun hi => hnone ⟨i, hi, hstop hi⟩
    rw [if_neg hi]
    rfl

/-! ## Runs -/

/-- What `get_first_key` is asked for: the oldest of the held keys; and in
NKRO mode a code whose bit is set, 0 without one, and no read outside. -/
structure FirstKeySound (s : ActionState) (held : List (BitVec 8)) : Prop where
  ring : s.nkroActive = false → s.getFirstKey? = some (held.headD 0)
  bits : s.nkroActive = true → ∃ c, s.getFirstKey? = some c ∧
    ((∃ d, s.keyReport.hasBit d = true) → s.keyReport.hasBit c = true) ∧
    ((¬∃ d, s.keyReport.hasBit d = true) → c = 0)

theorem runKeys_nkroActive (ops : List KeyOp) (s : ActionState) :
    (runKeys (ops.map .key) s).nkroActive = s.nkroActive := by
  induction ops generalizing s with
  | nil => rfl
  | cons op ops ih =>
    refine (ih (op.apply s)).trans ?_
    cases op <;> rfl

/-- **The first key.** After a run it is a held one exactly where, in NKRO
mode, some bit is set. -/
theorem getFirstKey_iff (protocol : BitVec 8) (nkro : Bool) (ops : List KeyOp) :
    let s := runKeys (ops.map .key) (startState protocol nkro)
    FirstKeySound s (ops.foldl KeyOp.onList []) ↔
      (s.nkroActive = true → ∃ c, s.keyReport.hasBit c = true) := by
  intro s
  have hring : s.nkroActive = false → s.getFirstKey? =
      some ((ops.foldl KeyOp.onList []).headD 0) := by
    intro hs
    have hstart : (startState protocol nkro).nkroActive = false := by
      rw [← runKeys_nkroActive ops]
      exact hs
    obtain ⟨xs, -, hrep, hheld, -⟩ := foldl_ring ops (startState protocol nkro) [] hstart rep_init
    rw [ActionState.getFirstKey?, hs, if_neg Bool.false_ne_true, hrep.firstSlot, hheld]
    rfl
  constructor
  · intro h hs
    by_contra hnone
    obtain ⟨c, hc, -⟩ := h.bits hs
    rw [(ActionState.getFirstKey_nkro hs).2 hnone] at hc
    cases hc
  · intro h
    refine ⟨hring, fun hs => ?_⟩
    obtain ⟨c, hc, hbit⟩ := (ActionState.getFirstKey_nkro hs).1 (h hs)
    exact ⟨c, hc, fun _ => hbit, fun hnone => absurd (h hs) hnone⟩

/-- In NKRO mode with no key the byte behind `nkro.bits` is read. -/
theorem getFirstKey_reads_outside :
    (startState 1 true).getFirstKey? = none ∧
      ¬FirstKeySound (runKeys [] (startState 1 true)) [] := by
  have hread : (startState 1 true).getFirstKey? = none := by decide
  refine ⟨hread, fun h => ?_⟩
  obtain ⟨c, hc, -⟩ := h.bits rfl
  cases hread.symm.trans hc

end Ch583Kbd.Tmk
