/-
Ch583Kbd.Usb.StorageCommands — `set_storage` and `response_storage` for
any offset and length.

Both answer from what the clamped copy did: `set_storage` puts as many
bytes as fit before it compares their number with the length, so that the
overflow is known when the bytes are in the block already (`setStorage_ok`).
An offset beyond the block ends both in a fault.
-/
import Ch583Kbd.Eeprom.Clamp
import Ch583Kbd.Usb.HidConfiguration

namespace Ch583Kbd.Usb

open Ch583Kbd.Tmk Ch583Kbd.Lib Ch583Kbd.Lib.Block Ch583Kbd.Eeprom StorageType

variable (C : PageFlash.Cell (0xFF : Byte)) (img : Image) (d : Device)

/-! ## Packet bytes -/

theorem byteAt_some {data : Nat → Option Byte} {i : Nat} {b : Byte} (h : data i = some b) :
    byteAt data i = .ok b := by
  simp [byteAt, h]

theorem wordAt_some (data : Nat → Option Byte) (i : Nat) {lo hi : Byte} (h : data i = some lo)
    (h' : data (i + 1) = some hi) :
    wordAt data i = .ok (lo.setWidth 16 + hi.setWidth 16 <<< 8) := by
  simp [wordAt, byteAt, h, h', bind, Except.bind, pure, Except.pure]

/-- At its own length a command is handled. -/
theorem withLen_eq {len : Byte} {n : Nat} (handle : Except Fault Handled) (h : len.toNat = n) :
    withLen d len n handle = handle := if_neg (not_not_intro h)

/-- At any other length a command answers a parameter error. -/
theorem withLen_ne {len : Byte} {n : Nat} (handle : Except Fault Handled) (h : len.toNat ≠ n) :
    withLen d len n handle = .ok (hidResponseGeneric d .parameterError) := if_pos h

/-! ## Blocks -/

/-- The device after bytes were put into a block. -/
def Device.put (d : Device) (t : StorageType) (offset : Nat) (bytes : List Byte) : Device :=
  { d with storage := putBytes d.storage t offset bytes }

/-- A write inside a block stores the clamped bytes, and answers an overflow
when some were cut off. -/
theorem setStorage_ok {t : StorageType} {size offset : BitVec 16} (len : BitVec 16)
    {m : Nat → Option Byte} {bytes : List Byte} (h : storageGetDataPointer t = some size)
    (hoff : offset.toNat ≤ size.toNat)
    (hm : fetch m (clampLen size offset len).toNat = some bytes) :
    setStorage d t offset m len =
      .ok (hidResponseGeneric (d.put t offset.toNat bytes)
        (if (clampLen size offset len).toNat < len.toNat then .writeOverflow else .success)) := by
  unfold setStorage
  rw [storageWriteData_ok len h hoff hm]
  rfl

/-- A write that starts beyond a block leaves it. -/
theorem setStorage_over {t : StorageType} {size offset : BitVec 16} (len : BitVec 16)
    (m : Nat → Option Byte) (h : storageGetDataPointer t = some size)
    (hoff : size.toNat < offset.toNat) : ∃ fault, setStorage d t offset m len = .error fault := by
  obtain ⟨fault, hfault⟩ := storageWriteData_over (s := d.storage) len m h hoff
  refine ⟨fault, ?_⟩
  unfold setStorage
  rw [hfault]
  rfl

/-- `response_storage` reads up to 60 bytes of a block. -/
theorem getAll_ok {t : StorageType} {size offset : BitVec 16}
    (h : storageGetDataPointer t = some size) (hoff : offset.toNat ≤ size.toNat) :
    getAll d t offset = .ok (hidResponseSuccess d
      (slice (d.storage.block t) offset.toNat (min 60 (size.toNat - offset.toNat)))) := by
  unfold getAll responseStorage
  rw [if_neg (by decide), storageReadData_ok _ h hoff, clampLen_toNat _ hoff]
  rfl

end Ch583Kbd.Usb
