/-
Ch583Kbd.Eeprom.Keymap — the stored keymap as a table of actions.

The positions in range have disjoint places of two bytes that cover
`keymap_block`, so the block is a table with one entry for each of them,
and `check_keymap` asks whether some entry is not `AC_NO`
(`keymapValid_checkKeymap`). Outside the range the index arithmetic gives
the places of other positions, or leads out of the block.
-/
import Ch583Kbd.Eeprom.Clamp

namespace Ch583Kbd.Eeprom

open Ch583Kbd.Lib Ch583Kbd.Lib.Block Ch583Kbd.Tmk StorageType

/-- A position of the stored keymap. -/
structure InRange (layer : BitVec 8) (key : KeyPos) : Prop where
  layer : layer.toNat < maxLayer
  row : key.row.toNat < matrixRows
  col : key.col.toNat < matrixCols

instance (layer : BitVec 8) (key : KeyPos) : Decidable (InRange layer key) :=
  decidable_of_iff
    (layer.toNat < maxLayer ∧ key.row.toNat < matrixRows ∧ key.col.toNat < matrixCols)
    ⟨fun h => ⟨h.1, h.2.1, h.2.2⟩, fun h => ⟨h.layer, h.row, h.col⟩⟩

/-! ## Words -/

/-- A word is read back from the bytes that `UINT16_SEQ` laid out. -/
theorem uint16_parts (d : BitVec 16) :
    (d.extractLsb' 0 8).setWidth 16 + (d.extractLsb' 8 8).setWidth 16 <<< 8 = d := by
  apply BitVec.eq_of_toNat_eq
  have hd := d.isLt
  simp [BitVec.extractLsb', BitVec.toNat_add, BitVec.toNat_shiftLeft, Nat.shiftRight_eq_div_pow,
    Nat.shiftLeft_eq]
  omega

/-- A word is zero only when both of its bytes are. -/
theorem uint16_eq_zero {lo hi : BitVec 8}
    (h : lo.setWidth 16 + hi.setWidth 16 <<< 8 = (0 : BitVec 16)) :
    lo = 0 ∧ hi = 0 := by
  have hnat := congrArg BitVec.toNat h
  have hlo := lo.isLt
  have hhi := hi.isLt
  simp [BitVec.toNat_add, BitVec.toNat_shiftLeft, Nat.shiftLeft_eq] at hnat
  constructor
  · apply BitVec.eq_of_toNat_eq
    simp
    omega
  · apply BitVec.eq_of_toNat_eq
    simp
    omega

/-! ## Indices -/

/-- The index of any three bytes fits a `uint16_t`. -/
theorem keyIndex_toNat (layer row col : BitVec 8) :
    (keyIndex layer row col).toNat = layer.toNat * 140 + row.toNat * 28 + col.toNat * 2 := by
  have hl := layer.isLt
  have hr := row.isLt
  have hc := col.isLt
  simp only [keyIndex, keymapLayerSize, keymapRowSize, matrixRows, matrixCols, singleKeySize,
    BitVec.toNat_ofNat]
  omega

/-- Both bytes of a position in range lie in the block. -/
theorem keyIndex_lt {layer : BitVec 8} {key : KeyPos} (h : InRange layer key) :
    (keyIndex layer key.row key.col).toNat + 1 < 1120 := by
  have hl := h.layer
  have hr := h.row
  have hc := h.col
  simp only [maxLayer, matrixRows, matrixCols] at hl hr hc
  rw [keyIndex_toNat]
  omega

/-- Two positions in range have disjoint places. -/
theorem keyIndex_disjoint {layer layer' : BitVec 8} {key key' : KeyPos} (h : InRange layer key)
    (h' : InRange layer' key') (hne : ¬ (layer' = layer ∧ key' = key)) :
    (keyIndex layer key.row key.col).toNat + 1 < (keyIndex layer' key'.row key'.col).toNat ∨
      (keyIndex layer' key'.row key'.col).toNat + 1 < (keyIndex layer key.row key.col).toNat := by
  have hl := h.layer
  have hr := h.row
  have hc := h.col
  have hl' := h'.layer
  have hr' := h'.row
  have hc' := h'.col
  simp only [maxLayer, matrixRows, matrixCols] at hl hr hc hl' hr' hc'
  rw [keyIndex_toNat, keyIndex_toNat]
  by_contra hnot
  apply hne
  obtain ⟨row, col⟩ := key
  obtain ⟨row', col'⟩ := key'
  simp only at hr hc hr' hc' hnot
  have e1 : layer'.toNat = layer.toNat := by omega
  have e2 : row'.toNat = row.toNat := by omega
  have e3 : col'.toNat = col.toNat := by omega
  rw [BitVec.eq_of_toNat_eq e1, BitVec.eq_of_toNat_eq e2, BitVec.eq_of_toNat_eq e3]
  exact ⟨rfl, rfl⟩

/-- Every byte of the block belongs to a position. -/
theorem exists_keyIndex {i : Nat} (h : i < 1120) : ∃ layer key, InRange layer key ∧
    ((keyIndex layer key.row key.col).toNat = i ∨
      (keyIndex layer key.row key.col).toNat + 1 = i) := by
  refine ⟨BitVec.ofNat 8 (i / 140), ⟨BitVec.ofNat 8 (i % 140 / 28), BitVec.ofNat 8 (i % 28 / 2)⟩,
    ?_, ?_⟩
  · constructor <;> simp [maxLayer, matrixRows, matrixCols] <;> omega
  · rw [keyIndex_toNat]
    simp only [BitVec.toNat_ofNat]
    omega

/-! ## Entries -/

def storedByte (s : Storage) (i : Nat) : BitVec 8 := (s.block storageKeymap)[i]?.getD 0

theorem storedByte_of_lt (s : Storage) {i : Nat} (h : i < blockSize storageKeymap) :
    storedByte s i = (s.block storageKeymap)[i] := by
  rw [storedByte, Vector.getElem?_eq_getElem h]
  rfl

/-- The entry of the stored keymap. -/
def storedAction (s : Storage) (layer : BitVec 8) (key : KeyPos) : Action :=
  ⟨uint16Read (storedByte s) (keyIndex layer key.row key.col).toNat⟩

/-- The zeroed block of the startup code stores no action anywhere. -/
theorem storedAction_empty (layer : BitVec 8) (key : KeyPos) :
    storedAction {} layer key = Action.no := by
  have hbyte : ∀ i, storedByte {} i = 0 := by
    intro i
    by_cases hi : i < blockSize storageKeymap
    · rw [storedByte_of_lt _ hi]
      exact Vector.getElem_replicate hi
    · rw [storedByte, Vector.getElem?_eq_none (by omega)]
      rfl
  unfold storedAction uint16Read
  rw [hbyte, hbyte]
  rfl

/-- In range `action_for_key` reads one of the two tables. -/
theorem actionForKey_inRange (img : Image) (s : Storage) {layer : BitVec 8} {key : KeyPos}
    (h : InRange layer key) : actionForKey img s layer key =
      if s.keymapValid then storedAction s layer key else img.actionmaps layer key := by
  have hlt := keyIndex_lt h
  have hl := h.layer
  have hr := h.row
  have hc := h.col
  have hnot : ¬ (keymapLayerSize ≤ layer.toNat ∨ matrixCols ≤ key.col.toNat ∨
      matrixRows ≤ key.row.toNat) := by
    simp only [maxLayer, keymapLayerSize, keymapRowSize, matrixRows, matrixCols,
      singleKeySize] at *
    omega
  have hbyte : ∀ i, i < 1120 → keymapByte img s i = storedByte s i := by
    intro i hi
    rw [keymapByte, dif_pos (show i < blockSize storageKeymap from hi),
      storedByte_of_lt s (show i < blockSize storageKeymap from hi)]
  unfold actionForKey storedAction uint16Read
  rw [if_neg hnot, hbyte _ (by omega), hbyte _ (by omega)]

/-- The answer depends on the block and `keymap_valid`. -/
theorem actionForKey_congr (img : Image) {s s' : Storage}
    (hblock : s'.block storageKeymap = s.block storageKeymap)
    (hvalid : s'.keymapValid = s.keymapValid) (layer : BitVec 8) (key : KeyPos) :
    actionForKey img s' layer key = actionForKey img s layer key := by
  unfold actionForKey uint16Read keymapByte
  rw [hblock, hvalid]

/-- `keymap_valid` after the scan: some entry is not `AC_NO`. -/
theorem keymapValid_checkKeymap (s : Storage) : s.checkKeymap.keymapValid = true ↔
    ∃ layer key, InRange layer key ∧ storedAction s layer key ≠ Action.no := by
  have hscan : s.checkKeymap.keymapValid = true ↔
      ∃ i, ∃ h : i < blockSize storageKeymap, (s.block storageKeymap)[i] ≠ 0 := by
    show ((s.block storageKeymap).any (· != 0)) = true ↔ _
    rw [Vector.any_eq_true]
    simp
  rw [hscan]
  constructor
  · rintro ⟨i, hi, hb⟩
    obtain ⟨layer, key, hrange, hidx⟩ := exists_keyIndex (i := i) hi
    refine ⟨layer, key, hrange, ?_⟩
    intro hzero
    obtain ⟨hlo, hhi⟩ := uint16_eq_zero (congrArg Action.code hzero)
    apply hb
    rcases hidx with hidx | hidx
    · rw [hidx, storedByte_of_lt s hi] at hlo
      exact hlo
    · rw [hidx, storedByte_of_lt s hi] at hhi
      exact hhi
  · rintro ⟨layer, key, hrange, hne⟩
    by_contra hall
    apply hne
    have hzero : ∀ i, i < blockSize storageKeymap → storedByte s i = 0 := by
      intro i hi
      rw [storedByte_of_lt s hi]
      by_contra hb
      exact hall ⟨i, hi, hb⟩
    have hlt := keyIndex_lt hrange
    have hlo := hzero (keyIndex layer key.row key.col).toNat (by rw [blockSize_keymap]; omega)
    have hhi := hzero ((keyIndex layer key.row key.col).toNat + 1) hlt
    simp [storedAction, uint16Read, hlo, hhi, Action.no]

/-! ## Writing one entry -/

/-- The storage after one entry was written. -/
def putKey (s : Storage) (layer : BitVec 8) (key : KeyPos) (keycode : BitVec 16) : Storage :=
  putBytes s storageKeymap (keyIndex layer key.row key.col).toNat (uint16Seq keycode)

/-- A position answers the code that was stored at it. -/
theorem storedAction_putKey (s : Storage) {layer : BitVec 8} {key : KeyPos} (keycode : BitVec 16)
    (h : InRange layer key) : storedAction (putKey s layer key keycode) layer key = ⟨keycode⟩ := by
  have hlt := keyIndex_lt h
  generalize hi : (keyIndex layer key.row key.col).toNat = i at hlt
  have hlo : i < blockSize storageKeymap := by
    rw [blockSize_keymap]
    omega
  have hhi : i + 1 < blockSize storageKeymap := hlt
  unfold storedAction putKey uint16Read
  rw [hi, storedByte_of_lt _ hlo, storedByte_of_lt _ hhi, putBytes_block,
    getElem_write _ _ _ _ hlo, getElem_write _ _ _ _ hhi]
  simp [uint16Seq, uint16_parts]

/-- Storing a code leaves every other position in range as it is. -/
theorem storedAction_putKey_other (s : Storage) {layer layer' : BitVec 8} {key key' : KeyPos}
    (keycode : BitVec 16) (h : InRange layer key) (h' : InRange layer' key')
    (hne : ¬ (layer' = layer ∧ key' = key)) :
    storedAction (putKey s layer key keycode) layer' key' = storedAction s layer' key' := by
  have hdis := keyIndex_disjoint h h' hne
  have hlt := keyIndex_lt h'
  generalize hj : (keyIndex layer' key'.row key'.col).toNat = j at hdis hlt
  have hlo : j < blockSize storageKeymap := by
    rw [blockSize_keymap]
    omega
  have hhi : j + 1 < blockSize storageKeymap := hlt
  unfold storedAction putKey uint16Read
  rw [hj, storedByte_of_lt _ hlo, storedByte_of_lt _ hhi, storedByte_of_lt _ hlo,
    storedByte_of_lt _ hhi, putBytes_block,
      getElem_write_outside _ hlo (by simp [uint16Seq]; omega),
    getElem_write_outside _ hhi (by simp [uint16Seq]; omega)]

/-- After a store the flag is what a scan of the new block finds. -/
theorem putKey_valid (s : Storage) (layer : BitVec 8) (key : KeyPos) (keycode : BitVec 16) :
    (putKey s layer key keycode).keymapValid =
      (putKey s layer key keycode).checkKeymap.keymapValid := by
  simp [putKey, putBytes, Storage.checkKeymap]

/-- The flag stays set when the new code, or another stored one, is not zero. -/
theorem putKey_valid_iff (s : Storage) {layer : BitVec 8} {key : KeyPos} (keycode : BitVec 16)
    (h : InRange layer key) : (putKey s layer key keycode).keymapValid = true ↔
      keycode ≠ 0 ∨ ∃ layer' key', InRange layer' key' ∧ ¬ (layer' = layer ∧ key' = key) ∧
        storedAction s layer' key' ≠ Action.no := by
  rw [putKey_valid, keymapValid_checkKeymap]
  constructor
  · rintro ⟨layer', key', hrange, hne⟩
    by_cases heq : layer' = layer ∧ key' = key
    · obtain ⟨rfl, rfl⟩ := heq
      left
      intro hzero
      apply hne
      rw [storedAction_putKey s keycode h, hzero]
      rfl
    · right
      rw [storedAction_putKey_other s keycode h hrange heq] at hne
      exact ⟨layer', key', hrange, heq, hne⟩
  · rintro (hcode | ⟨layer', key', hrange, hother, hne⟩)
    · refine ⟨layer, key, h, ?_⟩
      rw [storedAction_putKey s keycode h]
      intro hzero
      exact hcode (congrArg Action.code hzero)
    · refine ⟨layer', key', hrange, ?_⟩
      rw [storedAction_putKey_other s keycode h hrange hother]
      exact hne

end Ch583Kbd.Eeprom
