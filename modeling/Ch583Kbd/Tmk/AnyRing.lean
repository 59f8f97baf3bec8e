/-
Ch583Kbd.Tmk.AnyRing — the key operations on any report, coherent or not.

`clear_keys` leaves the ring's indices as they are, so the ring is not
always the list of codes that `KeyReportTheorems` makes of it. What holds
nevertheless: no operation puts a code into the report that was not there
and is not its argument (`uses_addKeyByte`, `uses_delKeyByte`), the
indices stay below six and the loops end (`addKeyByte_ends`,
`delKeyByte_ends`), and after `add_key` there is a key in the report
(`hasAnykey_addKey`).
-/
import Ch583Kbd.Tmk.NkroKeys

namespace Ch583Kbd.Tmk

namespace KeyReport

/-! ## The codes in the bytes -/

/-- One of the bytes after `mods` is `code`. -/
def Uses (r : KeyReport) (code : BitVec 8) : Prop := ∃ j, r.byte (1 + j) = code

theorem uses_key (r : KeyReport) (i : Nat) : r.Uses (r.key i) :=
  ⟨1 + i, by rw [byte, key, show 1 + (1 + i) = 2 + i by omega]⟩

theorem byte_setKey (r : KeyReport) (i j : Nat) (v : BitVec 8) :
    (r.setKey i v).byte j = v ∨ (r.setKey i v).byte j = r.byte j ∨
      (r.setKey i v).byte j = 0 := by
  simp only [byte, setKey, Vector.getElem?_setIfInBounds]
  split
  · split
    · exact .inl rfl
    · exact .inr (.inr rfl)
  · exact .inr (.inl rfl)

/-- Writing a slot brings in no code but the one written. -/
theorem uses_setKey {r : KeyReport} {i : Nat} {v code : BitVec 8} (hc : code ≠ 0)
    (h : (r.setKey i v).Uses code) : code = v ∨ r.Uses code := by
  obtain ⟨j, hj⟩ := h
  rcases byte_setKey r i (1 + j) v with hv | hold | hzero
  · exact .inl (hj.symm.trans hv)
  · exact .inr ⟨j, hold.symm.trans hj⟩
  · exact absurd (hj.symm.trans hzero) hc

/-- Moving a key to another slot brings in no code at all. -/
theorem uses_move {r : KeyReport} {i k : Nat} {code : BitVec 8} (hc : code ≠ 0)
    (h : ((r.setKey k (r.key i)).setKey i 0).Uses code) : r.Uses code := by
  rcases uses_setKey hc h with rfl | h
  · exact absurd rfl hc
  · rcases uses_setKey hc h with rfl | h
    · exact uses_key r i
    · exact h

/-- Adding at the tail brings in no code but the one added. -/
theorem uses_addToTail {r : KeyReport} {code c : BitVec 8} (hc : c ≠ 0)
    (h : (r.addToTail code).Uses c) : c = code ∨ r.Uses c :=
  uses_setKey (i := r.cbTail) hc h

/-- Closing the gaps of the ring brings in no code. -/
theorem uses_addShift {c : BitVec 8} (hc : c ≠ 0) : ∀ (fuel : Nat) (r : KeyReport)
    (i empty offset : Nat) {r' : KeyReport} {n : Nat},
    addShift fuel r i empty offset = some (r', n) → r'.Uses c → r.Uses c
  | 0, _, _, _, _, _, _, h, _ => by simp [addShift] at h
  | fuel + 1, r, i, empty, offset, r', n, h, hu => by
    by_cases hkey : r.key i = 0
    · rw [addShift_hole hkey] at h
      split at h
      · exact uses_addShift hc fuel _ _ _ _ h hu
      · cases h
        exact hu
    · rw [addShift_move hkey] at h
      split at h
      · exact uses_move hc (uses_addShift hc fuel _ _ _ _ h hu)
      · cases h
        exact uses_move hc hu

/-- `add_key_byte` brings in no code but the one added. -/
theorem uses_addKeyByte {r : KeyReport} {code c : BitVec 8} (hc : c ≠ 0)
    (h : (r.addKeyByte code).Uses c) : c = code ∨ r.Uses c := by
  have hsome : ∀ r', r.addKeyByte? code = some r' → r'.Uses c → c = code ∨ r.Uses c := by
    intro r' hr hu
    unfold addKeyByte? at hr
    split at hr
    · split at hr
      · cases hr
      · cases hr
        exact .inr hu
      · split at hr
        · split at hr
          · cases hr
            exact uses_addToTail hc hu
          · split at hr
            · cases hr
            · next hshift =>
              cases hr
              exact (uses_addToTail hc hu).imp_right (uses_addShift hc _ _ _ _ _ hshift)
        · cases hr
          exact uses_addToTail hc hu
    · cases hr
      exact uses_addToTail hc hu
  unfold addKeyByte at h
  cases hr : r.addKeyByte? code with
  | none =>
    rw [hr] at h
    exact .inr h
  | some r' =>
    rw [hr] at h
    exact hsome r' hr h

/-- Moving the tail back does not write to the report. -/
theorem delRetract_raw : ∀ (fuel : Nat) (r r' : KeyReport), delRetract fuel r = some r' →
    r'.raw = r.raw
  | 0, _, _, h => by simp [delRetract] at h
  | fuel + 1, r, r', h => by
    unfold delRetract at h
    dsimp only at h
    split at h
    · cases h
      rfl
    · split at h
      · exact (delRetract_raw fuel _ r' h).trans rfl
      · cases h
        rfl

theorem delFound_raw {r r' : KeyReport} {i : Nat} (h : r.delFound i = some r') :
    r'.raw = (r.setKey i 0).raw := by
  by_cases hcount : r.cbCount - 1 = 0
  · rw [delFound_last hcount] at h
    split at h
    · rw [delRetract_raw _ _ _ h]
    · cases h
      rfl
  · rw [delFound_more hcount] at h
    split at h
    · rw [delRetract_raw _ _ _ h]
      rfl
    · cases h
      rfl

theorem uses_delScan {code c : BitVec 8} (hc : c ≠ 0) : ∀ (fuel : Nat) (r : KeyReport) (i : Nat)
    {r' : KeyReport}, r.delScan code fuel i = some r' → r'.Uses c → r.Uses c
  | 0, _, _, _, h, _ => by simp [delScan] at h
  | fuel + 1, r, i, r', h, hu => by
    unfold delScan at h
    dsimp only at h
    split at h
    · have hraw := delFound_raw h
      have hset : (r.setKey i 0).Uses c := by
        obtain ⟨j, hj⟩ := hu
        exact ⟨j, by rw [byte, ← hraw]; exact hj⟩
      exact (uses_setKey hc hset).resolve_left hc
    · split at h
      · exact uses_delScan hc fuel r _ h hu
      · cases h
        exact hu

/-- `del_key_byte` brings in no code. -/
theorem uses_delKeyByte {r : KeyReport} {code c : BitVec 8} (hc : c ≠ 0)
    (h : (r.delKeyByte code).Uses c) : r.Uses c := by
  unfold delKeyByte delKeyByte? at h
  split at h
  · cases hr : r.delScan code usb6kroKeys r.cbHead with
    | none =>
      rw [hr] at h
      exact h
    | some r' =>
      rw [hr] at h
      exact uses_delScan hc _ r _ hr h
  · exact h

/-! ## The bits -/

/-- A code beyond the bitmap changes nothing. -/
theorem modifyBits_of_le (r : KeyReport) {code : BitVec 8} (f : BitVec 8 → BitVec 8)
    (h : ¬bitsByte code < keyboardReportBits) : r.modifyBits code f = r := if_neg h

/-- `add_key_bit` sets no bit but that of its code. -/
theorem hasBit_of_addKeyBit {r : KeyReport} {code c : BitVec 8}
    (h : (r.addKeyBit code).hasBit c = true) : c = code ∨ r.hasBit c = true := by
  by_cases hc : bitsByte code < keyboardReportBits
  · exact (hasBit_addKeyBit r hc c).mp h
  · rw [addKeyBit, modifyBits_of_le r _ hc] at h
    exact .inr h

/-- `del_key_bit` sets no bit. -/
theorem hasBit_of_delKeyBit {r : KeyReport} {code c : BitVec 8}
    (h : (r.delKeyBit code).hasBit c = true) : r.hasBit c = true := by
  by_cases hc : bitsByte code < keyboardReportBits
  · exact ((hasBit_delKeyBit r hc c).mp h).2
  · rw [delKeyBit, modifyBits_of_le r _ hc] at h
    exact h

/-! ## What the report shows -/

/-- The report shows the code to the host, as a bit in NKRO mode. -/
def ShowsCode (r : KeyReport) (nkro : Bool) (code : BitVec 8) : Prop :=
  if nkro then r.hasBit code = true else code ≠ 0 ∧ r.Uses code

theorem byte_setMods_succ (r : KeyReport) (m : BitVec 8) (j : Nat) :
    (r.setMods m).byte (1 + j) = r.byte (1 + j) := by
  simp only [byte, setMods, Vector.getElem?_setIfInBounds]
  rw [if_neg (by omega)]

theorem byte_setMods_zero (r : KeyReport) (m : BitVec 8) : (r.setMods m).byte 0 = m := by
  simp [byte, setMods]

@[simp] theorem showsCode_setMods (r : KeyReport) (m : BitVec 8) (nkro : Bool)
    (code : BitVec 8) : (r.setMods m).ShowsCode nkro code ↔ r.ShowsCode nkro code := by
  simp only [ShowsCode, Uses, hasBit, byte_setMods_succ]

theorem byte_clearKeys_succ (r : KeyReport) (j : Nat) : r.clearKeys.byte (1 + j) = 0 := by
  simp only [byte, clearKeys, Vector.getElem?_setIfInBounds]
  rw [if_neg (by omega), Vector.getElem?_replicate]
  split <;> rfl

@[simp] theorem not_showsCode_clearKeys (r : KeyReport) (nkro : Bool) (code : BitVec 8) :
    ¬r.clearKeys.ShowsCode nkro code := by
  cases nkro with
  | true => simp [ShowsCode, hasBit, byte_clearKeys_succ]
  | false =>
    rintro ⟨hc, j, hj⟩
    exact hc (hj.symm.trans (byte_clearKeys_succ r j))

end KeyReport

namespace ActionState

variable (s : ActionState)

/-- `add_key` makes the report show no code but its own, in both formats. -/
theorem showsCode_addKey {code c : BitVec 8}
    (h : (s.addKey code).keyReport.ShowsCode s.nkroActive c) :
    c = code ∨ s.keyReport.ShowsCode s.nkroActive c := by
  unfold addKey at h
  unfold KeyReport.ShowsCode at h ⊢
  cases hn : s.nkroActive with
  | true =>
    simp only [hn, if_true] at h ⊢
    exact KeyReport.hasBit_of_addKeyBit h
  | false =>
    simp only [hn, Bool.false_eq_true, if_false] at h ⊢
    exact (KeyReport.uses_addKeyByte h.1 h.2).imp_right fun hu => ⟨h.1, hu⟩

/-- `del_key` makes the report show no new code, in both formats. -/
theorem showsCode_delKey {code c : BitVec 8}
    (h : (s.delKey code).keyReport.ShowsCode s.nkroActive c) :
    s.keyReport.ShowsCode s.nkroActive c := by
  unfold delKey at h
  unfold KeyReport.ShowsCode at h ⊢
  cases hn : s.nkroActive with
  | true =>
    simp only [hn, if_true] at h ⊢
    exact KeyReport.hasBit_of_delKeyBit h
  | false =>
    simp only [hn, Bool.false_eq_true, if_false] at h ⊢
    exact ⟨h.1, KeyReport.uses_delKeyByte h.1 h.2⟩

end ActionState

/-! ## The loops end -/

namespace KeyReport

/-- `cb_head` and `cb_tail` are indices of the ring. -/
structure InRing (r : KeyReport) : Prop where
  head : r.cbHead < usb6kroKeys
  tail : r.cbTail < usb6kroKeys

/-- The rounds of a loop that starts at `i` and stops at `t`. -/
def gap (i t : Nat) : Nat := (t + 5 - i) % 6 + 1

theorem gap_le (i t : Nat) : gap i t ≤ usb6kroKeys := by
  unfold gap usb6kroKeys
  omega

theorem roInc_lt (i : Nat) : roInc i < usb6kroKeys := Nat.mod_lt _ (by decide)

theorem roSub_lt (a b : Nat) : roSub a b < usb6kroKeys := Nat.mod_lt _ (by decide)

/-- One step forward leaves one round fewer. -/
theorem gap_roInc {i t : Nat} (hi : i < usb6kroKeys) (ht : t < usb6kroKeys) (hne : roInc i ≠ t) :
    gap (roInc i) t + 1 = gap i t := by
  unfold gap
  unfold roInc roAdd usb6kroKeys at *
  omega

/-- The search of `add_key_byte` ends within its rounds: it has found the code,
or knows of an empty slot or none. -/
theorem addScan_ends (r : KeyReport) (code : BitVec 8) (ht : r.cbTail < usb6kroKeys) :
    ∀ (fuel i : Nat) (empty : Option Nat), i < usb6kroKeys → gap i r.cbTail ≤ fuel →
      r.addScan code fuel i empty = some .found ∧ r.Uses code ∨
        ∃ i' e, r.addScan code fuel i empty = some (.ended i' e)
  | 0, i, _, _, h => by simp [gap] at h
  | fuel + 1, i, empty, hi, h => by
    unfold addScan
    by_cases hkey : r.key i = code
    · rw [if_pos hkey]
      exact .inl ⟨rfl, hkey ▸ uses_key r i⟩
    · rw [if_neg hkey]
      dsimp only
      split
      · next hne =>
        have hgap := gap_roInc hi ht hne
        exact addScan_ends r code ht fuel _ _ (roInc_lt i) (by omega)
      · exact .inr ⟨_, _, rfl⟩

/-- The loop that closes the gaps ends within its rounds. -/
theorem addShift_ends : ∀ (fuel : Nat) (r : KeyReport) (i empty offset : Nat),
    r.cbTail < usb6kroKeys → i < usb6kroKeys → gap i r.cbTail ≤ fuel →
      ∃ r' n, addShift fuel r i empty offset = some (r', n) ∧ r'.cbHead = r.cbHead
  | 0, _, i, _, _, _, _, h => by simp [gap] at h
  | fuel + 1, r, i, empty, offset, ht, hi, h => by
    have hgap := fun hne => gap_roInc hi ht hne
    by_cases hkey : r.key i = 0
    · rw [addShift_hole hkey]
      split
      · next hne => exact addShift_ends fuel r _ _ _ ht (roInc_lt i) (by have := hgap hne; omega)
      · exact ⟨r, _, rfl, rfl⟩
    · rw [addShift_move hkey]
      split
      · next hne =>
        have hnext := addShift_ends fuel ((r.setKey empty (r.key i)).setKey i 0) (roInc i)
          (roInc empty) offset ht (roInc_lt i)
            (by have := hgap hne; simp only [setKey_cbTail]; omega)
        simpa using hnext
      · exact ⟨_, _, rfl, by simp⟩

/-- The code that is added is in the report afterwards. -/
theorem addToTail_ends {r : KeyReport} (h : r.InRing) (code : BitVec 8) :
    (r.addToTail code).InRing ∧ (r.addToTail code).Uses code := by
  refine ⟨⟨h.head, roInc_lt _⟩, ?_⟩
  have hkey : (r.addToTail code).key r.cbTail = code := by
    have hslot := key_setKey r r.cbTail r.cbTail code h.tail
    rw [if_pos rfl] at hslot
    exact hslot
  obtain ⟨j, hj⟩ := uses_key (r.addToTail code) r.cbTail
  exact ⟨j, hj.trans hkey⟩

/-- **`add_key_byte` ends** and leaves the code in the report, whatever the
ring looks like. -/
theorem addKeyByte_ends {r : KeyReport} (h : r.InRing) (code : BitVec 8) :
    ∃ r', r.addKeyByte? code = some r' ∧ r'.InRing ∧ r'.Uses code := by
  have hadd : ∀ r' : KeyReport, r'.InRing →
      ∃ r'', some (r'.addToTail code) = some r'' ∧ r''.InRing ∧ r''.Uses code :=
    fun r' h' => ⟨_, rfl, addToTail_ends h' code⟩
  unfold addKeyByte?
  split
  · rcases r.addScan_ends code h.tail usb6kroKeys r.cbHead none h.head (gap_le _ _) with
      ⟨hscan, huses⟩ | ⟨i, e, hscan⟩
    · rw [hscan]
      exact ⟨r, rfl, h, huses⟩
    · rw [hscan]
      dsimp only
      split
      · cases e with
        | none => exact hadd _ ⟨roInc_lt _, h.tail⟩
        | some e =>
          obtain ⟨r', n, hshift, hhead⟩ := addShift_ends usb6kroKeys r (roInc e) e 1 h.tail
            (roInc_lt e) (gap_le _ _)
          simp only [hshift]
          exact hadd _ ⟨hhead ▸ h.head, roSub_lt _ _⟩
      · exact hadd r h
  · exact hadd r h

theorem roDec_lt (i : Nat) : roDec i < usb6kroKeys := Nat.mod_lt _ (by decide)

/-- One step of the tail back leaves one round fewer. -/
theorem gap_roDec {h t : Nat} (hh : h < usb6kroKeys) (ht : t < usb6kroKeys) (hne : roDec t ≠ h) :
    gap h (roDec t) + 1 = gap h t := by
  unfold gap
  unfold roDec roSub usb6kroKeys at *
  omega

/-- The loop that moves the tail back ends within its rounds. -/
theorem delRetract_ends : ∀ (fuel : Nat) {r : KeyReport}, r.InRing → gap r.cbHead r.cbTail ≤ fuel →
    ∃ r', delRetract fuel r = some r' ∧ r'.InRing
  | 0, _, _, h => by simp [gap] at h
  | fuel + 1, r, hr, h => by
    have hnext : ({ r with cbTail := roDec r.cbTail } : KeyReport).InRing := ⟨hr.head, roDec_lt _⟩
    unfold delRetract
    dsimp only
    split
    · exact ⟨_, rfl, hnext⟩
    · split
      · next hne =>
        have hgap := gap_roDec hr.head hr.tail hne
        exact delRetract_ends fuel hnext (by dsimp only; omega)
      · exact ⟨_, rfl, hnext⟩

theorem delFound_ends {r : KeyReport} (hr : r.InRing) (i : Nat) :
    ∃ r', r.delFound i = some r' ∧ r'.InRing := by
  have hhome : ({ r.setKey i 0 with cbCount := 0, cbTail := 0, cbHead := 0 } :
    KeyReport).InRing := ⟨Nat.zero_lt_succ _, Nat.zero_lt_succ _⟩
  have hdug : (r.dug i).InRing := ⟨hr.head, hr.tail⟩
  by_cases hcount : r.cbCount - 1 = 0
  · rw [delFound_last hcount]
    split
    · exact delRetract_ends _ hhome (gap_le _ _)
    · exact ⟨_, rfl, hhome⟩
  · rw [delFound_more hcount]
    split
    · exact delRetract_ends _ hdug (gap_le _ _)
    · exact ⟨_, rfl, hdug⟩

/-- The loop of `del_key_byte` ends within its rounds, in the ring. -/
theorem delScan_ends {r : KeyReport} (hr : r.InRing) (code : BitVec 8) : ∀ (fuel i : Nat),
    i < usb6kroKeys → gap i r.cbTail ≤ fuel → ∃ r', r.delScan code fuel i = some r' ∧ r'.InRing
  | 0, i, _, h => by simp [gap] at h
  | fuel + 1, i, hi, h => by
    unfold delScan
    dsimp only
    split
    · exact delFound_ends hr i
    · split
      · next hne =>
        have hgap := gap_roInc hi hr.tail hne
        exact delScan_ends hr code fuel _ (roInc_lt i) (by omega)
      · exact ⟨r, rfl, hr⟩

/-- **`del_key_byte` ends**, whatever the ring looks like. -/
theorem delKeyByte_ends {r : KeyReport} (h : r.InRing) (code : BitVec 8) :
    ∃ r', r.delKeyByte? code = some r' ∧ r'.InRing := by
  unfold delKeyByte?
  split
  · exact delScan_ends h code usb6kroKeys r.cbHead h.head (gap_le _ _)
  · exact ⟨r, rfl, h⟩

/-- `add_key_byte` keeps its indices in the ring, and afterwards the code is in
the report. -/
theorem addKeyByte_inRing {r : KeyReport} (h : r.InRing) (code : BitVec 8) :
    (r.addKeyByte code).InRing ∧ (r.addKeyByte code).Uses code := by
  obtain ⟨r', hadd, hr', huses⟩ := addKeyByte_ends h code
  unfold addKeyByte
  rw [hadd]
  exact ⟨hr', huses⟩

/-- `del_key_byte` keeps its indices in the ring. -/
theorem delKeyByte_inRing {r : KeyReport} (h : r.InRing) (code : BitVec 8) :
    (r.delKeyByte code).InRing := by
  obtain ⟨r', hdel, hr'⟩ := delKeyByte_ends h code
  unfold delKeyByte
  rw [hdel]
  exact hr'

theorem modifyBits_inRing {r : KeyReport} (h : r.InRing) (code : BitVec 8)
    (f : BitVec 8 → BitVec 8) : (r.modifyBits code f).InRing := by
  unfold modifyBits
  dsimp only
  split
  · exact ⟨h.head, h.tail⟩
  · exact h

/-- A code in the report counts for `has_anykey`. -/
theorem hasAnykey_of_uses {r : KeyReport} {code : BitVec 8} (hc : code ≠ 0) (h : r.Uses code) :
    r.hasAnykey ≠ 0 := by
  obtain ⟨j, hj⟩ := h
  rw [hasAnykey_ne_zero]
  by_cases hlt : j < keyboardReportBits
  · exact ⟨j, hlt, hj ▸ hc⟩
  · exfalso
    apply hc
    have hout : ¬1 + j < keyboardReportSize := by
      simp only [keyboardReportBits, keyboardReportSize] at hlt ⊢
      omega
    rw [← hj, byte, Vector.getElem?_eq_none (by omega)]
    rfl

theorem isKey_bounds {code : BitVec 8} (h : isKey code = true) :
    4 ≤ code.toNat ∧ code.toNat ≤ 164 := by
  simpa [isKey, BitVec.le_def] using h

/-- The codes of keys have a bit in the NKRO report. -/
theorem bitsByte_lt {code : BitVec 8} (h : isKey code = true) :
    bitsByte code < keyboardReportBits := by
  have hle := (isKey_bounds h).2
  rw [bitsByte_eq]
  simp only [keyboardReportBits]
  omega

end KeyReport

namespace ActionState

variable {s : ActionState}

/-- After `add_key` of a key `has_anykey` answers yes, in both formats. -/
theorem hasAnykey_addKey (h : s.keyReport.InRing) {code : BitVec 8} (hc : isKey code = true) :
    (s.addKey code).keyReport.hasAnykey ≠ 0 := by
  unfold addKey
  split
  · refine (KeyReport.hasAnykey_nkro _).mpr ⟨code, ?_⟩
    exact (KeyReport.hasBit_addKeyBit s.keyReport (KeyReport.bitsByte_lt hc) code).mpr (.inl rfl)
  · have hne : code ≠ 0 := by
      rintro rfl
      simp [isKey] at hc
    exact KeyReport.hasAnykey_of_uses hne (KeyReport.addKeyByte_inRing h code).2

/-- `add_key` keeps the indices in the ring. -/
theorem inRing_addKey (h : s.keyReport.InRing) (code : BitVec 8) :
    (s.addKey code).keyReport.InRing := by
  have hbit := KeyReport.modifyBits_inRing h code (· ||| 1#8 <<< (code &&& 7).toNat)
  unfold addKey
  split
  · exact hbit
  · exact (KeyReport.addKeyByte_inRing h code).1

/-- `del_key` keeps the indices in the ring. -/
theorem inRing_delKey (h : s.keyReport.InRing) (code : BitVec 8) :
    (s.delKey code).keyReport.InRing := by
  have hbit := KeyReport.modifyBits_inRing h code (· &&& ~~~(1#8 <<< (code &&& 7).toNat))
  unfold delKey
  split
  · exact hbit
  · exact KeyReport.delKeyByte_inRing h code

end ActionState

end Ch583Kbd.Tmk
