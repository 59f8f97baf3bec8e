/-
Ch583Kbd.Eeprom.Clamp — what `storage_read_data` and `storage_write_data`
copy.

With an offset up to the size of the block a call copies as many bytes as
fit behind the offset. With an offset beyond it the difference `size -
offset` wraps, and a copy that should be empty takes what is left up to
65536 (`clampLen_beyond`), whatever `len` is. A call is clamped exactly if
the offset is not beyond the size, or the type has no block at all
(`clamped_iff`).
-/
import Mathlib.Algebra.Group.Nat.Defs
import Ch583Kbd.Eeprom.Storage

namespace Ch583Kbd.Eeprom

open Ch583Kbd.Lib Ch583Kbd.Lib.Block

/-! ## The length -/

theorem pointer_keymap : storageGetDataPointer .storageKeymap = some 1120 := rfl

theorem pointer_macros : storageGetDataPointer .storageMacro = some 1024 := rfl

/-- The size of the block that a type gives access to, 0 without one. -/
def accessSize (t : StorageType) : Nat := ((storageGetDataPointer t).map BitVec.toNat).getD 0

/-- The size that `storage_get_data_pointer` answers is that of the block. -/
theorem toNat_size {t : StorageType} {size : BitVec 16}
    (h : storageGetDataPointer t = some size) : size.toNat = blockSize t := by
  cases t <;> cases h <;> rfl

theorem accessSize_of_some {t : StorageType} {size : BitVec 16}
    (h : storageGetDataPointer t = some size) : accessSize t = size.toNat := by
  simp [accessSize, h]

theorem accessSize_of_none {t : StorageType} (h : storageGetDataPointer t = none) :
    accessSize t = 0 := by
  simp [accessSize, h]

/-- Up to the size the length is cut to what is left behind the offset. -/
theorem clampLen_toNat {size offset : BitVec 16} (len : BitVec 16)
    (h : offset.toNat ≤ size.toNat) :
    (clampLen size offset len).toNat = min len.toNat (size.toNat - offset.toNat) := by
  unfold clampLen
  split
  · rw [BitVec.toNat_sub_of_le (BitVec.le_def.mpr h)]
    omega
  · omega

/-- Beyond the size the subtraction wraps, so the length is nearly 2^16. -/
theorem clampLen_beyond {size offset : BitVec 16} (len : BitVec 16)
    (h : size.toNat < offset.toNat) :
    (clampLen size offset len).toNat = 2 ^ 16 + size.toNat - offset.toNat := by
  unfold clampLen
  rw [if_pos (by omega), BitVec.toNat_sub]
  omega

/-- A length that fits stays as it is. -/
theorem clampLen_fits {size offset len : BitVec 16} (h : offset.toNat + len.toNat ≤ size.toNat) :
    clampLen size offset len = len := if_neg (by omega)

/-! ## The copies -/

/-- A type without a block reads nothing. -/
theorem storageReadData_none {s : Storage} {t : StorageType} (offset len : BitVec 16)
    (h : storageGetDataPointer t = none) : storageReadData s t offset len = .ok (0, []) := by
  simp [storageReadData, h]

/-- A type without a block writes nothing. -/
theorem storageWriteData_none {s : Storage} {t : StorageType} (offset len : BitVec 16)
    (data : Nat → Option (BitVec 8)) (h : storageGetDataPointer t = none) :
    storageWriteData s t offset len data = .ok (0, s) := by
  simp [storageWriteData, h]

/-- A read inside the block answers the clamped length and its bytes. -/
theorem storageReadData_ok {s : Storage} {t : StorageType} {size offset : BitVec 16}
    (len : BitVec 16) (h : storageGetDataPointer t = some size)
    (hoff : offset.toNat ≤ size.toNat) :
    storageReadData s t offset len = .ok (clampLen size offset len,
      slice (s.block t) offset.toNat (clampLen size offset len).toNat) := by
  have hn := clampLen_toNat len hoff
  have hin : offset.toNat + (clampLen size offset len).toNat ≤ blockSize t := by
    rw [← toNat_size h]
    omega
  have hcopy := copyOut_ok (s.block t) hin
  simp [storageReadData, h, hcopy, bind, Except.bind, pure, Except.pure]

/-- The storage after bytes were put into a block. -/
def putBytes (s : Storage) (t : StorageType) (offset : Nat) (bytes : List (BitVec 8)) : Storage :=
  let s' := s.setBlock t (write (s.block t) offset bytes)
  if t = .storageKeymap then s'.checkKeymap else s'

@[simp] theorem putBytes_block (s : Storage) (t : StorageType) (offset : Nat)
    (bytes : List (BitVec 8)) :
    (putBytes s t offset bytes).block t = write (s.block t) offset bytes := by
  unfold putBytes
  split <;> simp

theorem putBytes_other (s : Storage) {t t' : StorageType} (offset : Nat)
    (bytes : List (BitVec 8)) (h : t' ≠ t) :
    (putBytes s t offset bytes).block t' = s.block t' := by
  unfold putBytes
  split <;> simp [Storage.setBlock_other _ _ h]

theorem putBytes_keymapValid (s : Storage) {t : StorageType} (offset : Nat)
    (bytes : List (BitVec 8)) (h : t ≠ .storageKeymap) :
    (putBytes s t offset bytes).keymapValid = s.keymapValid := by
  simp [putBytes, h, Storage.setBlock]

/-- Scanning the keymap block again after a write of it changes nothing. -/
theorem putBytes_scanned (s : Storage) (offset : Nat) (bytes : List (BitVec 8)) :
    (putBytes s .storageKeymap offset bytes).checkKeymap =
      putBytes s .storageKeymap offset bytes := by
  simp [putBytes, Storage.checkKeymap]

/-- Putting bytes changes nothing exactly if they stand there already, and
`keymap_valid` is what the scan gives. -/
theorem putBytes_eq_self_iff (s : Storage) (t : StorageType) (offset : Nat)
    (bytes : List (BitVec 8)) (h : offset + bytes.length ≤ blockSize t) :
    putBytes s t offset bytes = s ↔ slice (s.block t) offset bytes.length = bytes ∧
      (t = .storageKeymap → s.checkKeymap = s) := by
  rw [← write_eq_self_iff (s.block t) h]
  constructor
  · intro heq
    constructor
    · rw [← putBytes_block, heq]
    · rintro rfl
      rw [← heq]
      exact putBytes_scanned s offset bytes
  · rintro ⟨hblock, hvalid⟩
    have hset : s.setBlock t (s.block t) = s := by
      simp [Storage.setBlock]
    unfold putBytes
    rw [hblock, hset]
    split
    · next ht => exact hvalid ht
    · rfl

/-- A write inside the block puts the clamped bytes there. -/
theorem storageWriteData_ok {s : Storage} {t : StorageType} {size offset : BitVec 16}
    (len : BitVec 16) {m : Nat → Option (BitVec 8)} {bytes : List (BitVec 8)}
    (h : storageGetDataPointer t = some size) (hoff : offset.toNat ≤ size.toNat)
    (hm : fetch m (clampLen size offset len).toNat = some bytes) :
    storageWriteData s t offset len m =
      .ok (clampLen size offset len, putBytes s t offset.toNat bytes) := by
  have hn := clampLen_toNat len hoff
  have hin : offset.toNat + (clampLen size offset len).toNat ≤ blockSize t := by
    rw [← toNat_size h]
    omega
  simp [storageWriteData, h, copyIn, hm, hin, putBytes, bind, Except.bind, pure, Except.pure]

/-- A read that starts beyond the block leaves it. -/
theorem storageReadData_over {s : Storage} {t : StorageType} {size offset : BitVec 16}
    (len : BitVec 16) (h : storageGetDataPointer t = some size)
    (hoff : size.toNat < offset.toNat) :
    storageReadData s t offset len = .error .block := by
  have hwrap := clampLen_beyond len hoff
  have hnot : ¬ ((clampLen size offset len).toNat = 0 ∨
      offset.toNat + (clampLen size offset len).toNat ≤ blockSize t) := by
    rw [← toNat_size h]
    omega
  simp only [storageReadData, h, copyOut, if_neg hnot, bind, Except.bind]

/-- Beyond the size a write faults, whatever it is to copy. -/
theorem storageWriteData_over {s : Storage} {t : StorageType} {size offset : BitVec 16}
    (len : BitVec 16) (m : Nat → Option (BitVec 8)) (h : storageGetDataPointer t = some size)
    (hoff : size.toNat < offset.toNat) :
    ∃ fault, storageWriteData s t offset len m = .error fault := by
  have hwrap := clampLen_beyond len hoff
  have hnot : ¬ ((clampLen size offset len).toNat = 0 ∨
      offset.toNat + (clampLen size offset len).toNat ≤ blockSize t) := by
    rw [← toNat_size h]
    omega
  cases hm : fetch m (clampLen size offset len).toNat with
  | none => exact ⟨.source, by simp [storageWriteData, h, copyIn, hm, bind, Except.bind]⟩
  | some bytes => exact ⟨.block, by simp only [storageWriteData, h, copyIn, hm, if_neg hnot,
      bind, Except.bind]⟩

/-! ## Clamped access -/

/-- The number of bytes a call is to copy. -/
def clamped (t : StorageType) (offset len : BitVec 16) : Nat :=
  min len.toNat (accessSize t - offset.toNat)

/-- What the two functions are to do with one offset and length: copy
`clamped` bytes, return that number, leave everything else. -/
structure Clamped (s : Storage) (t : StorageType) (offset len : BitVec 16)
    (data : Nat → BitVec 8) : Prop where
  read : ∃ n, n.toNat = clamped t offset len ∧
    storageReadData s t offset len = .ok (n, slice (s.block t) offset.toNat n.toNat)
  write : ∃ n s', n.toNat = clamped t offset len ∧
    storageWriteData s t offset len (fun i => some (data i)) = .ok (n, s') ∧
    s'.block t = Block.write (s.block t) offset.toNat ((List.range n.toNat).map data) ∧
    (∀ t', t' ≠ t → s'.block t' = s.block t') ∧
    storageReadData s' t offset len = .ok (n, (List.range n.toNat).map data)

/-- **A call is clamped exactly if its offset is not beyond the size**, or
there is no block. -/
theorem clamped_iff (s : Storage) (t : StorageType) (offset len : BitVec 16)
    (data : Nat → BitVec 8) :
    Clamped s t offset len data ↔
      storageGetDataPointer t = none ∨ offset.toNat ≤ accessSize t := by
  constructor
  · intro h
    cases hp : storageGetDataPointer t with
    | none => exact Or.inl rfl
    | some size =>
      right
      rw [accessSize_of_some hp]
      by_contra hoff
      obtain ⟨n, -, hread⟩ := h.read
      rw [storageReadData_over len hp (by omega)] at hread
      cases hread
  · intro h
    cases hp : storageGetDataPointer t with
    | none =>
      have hn : (0 : BitVec 16).toNat = clamped t offset len := by
        simp [clamped, accessSize_of_none hp]
      constructor
      · exact ⟨0, hn, by simp [storageReadData_none offset len hp, slice]⟩
      · exact ⟨0, s, hn, storageWriteData_none offset len _ hp, by simp, fun _ _ => rfl,
          by simp [storageReadData_none offset len hp]⟩
    | some size =>
      have hoff : offset.toNat ≤ size.toNat := by
        rw [hp, accessSize_of_some hp] at h
        simpa using h
      have hn : (clampLen size offset len).toNat = clamped t offset len := by
        rw [clampLen_toNat len hoff, clamped, accessSize_of_some hp]
      have hin : offset.toNat + (clampLen size offset len).toNat ≤ blockSize t := by
        rw [clampLen_toNat len hoff, ← toNat_size hp]
        omega
      constructor
      · exact ⟨_, hn, storageReadData_ok len hp hoff⟩
      · refine ⟨_, _, hn, storageWriteData_ok len hp hoff (fetch_total data _), ?_, ?_, ?_⟩
        · exact putBytes_block ..
        · exact fun t' ht' => putBytes_other s _ _ ht'
        · rw [storageReadData_ok len hp hoff, putBytes_block]
          have hlist : offset.toNat +
              ((List.range (clampLen size offset len).toNat).map data).length ≤ blockSize t := by
            simpa using hin
          have hback := slice_write (s.block t) hlist
          rw [List.length_map, List.length_range] at hback
          rw [hback]

/-- One byte beyond the keymap, even a call that asks for nothing leaves
the block. -/
theorem not_clamped_beyond : ¬ Clamped {} .storageKeymap 1121 0 (fun _ => 0) := by
  intro h
  obtain ⟨n, -, hread⟩ := h.read
  rw [storageReadData_over 0 rfl (by decide)] at hread
  cases hread

end Ch583Kbd.Eeprom
