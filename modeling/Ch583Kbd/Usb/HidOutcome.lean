/-
Ch583Kbd.Usb.HidOutcome — everything a command can do.

`HidOutcome` lists the ways in which `hid_on_recv` ends: without a
response, with a response and nothing else, after `storage_write`, or after
bytes were put into the block that the command writes. Each command ends in
one of them (`hidOnRecv_outcome`), so that a fact about all commands has
five cases.
-/
import Mathlib.Data.Option.Basic
import Ch583Kbd.Usb.StorageCommands

namespace Ch583Kbd.Usb

open Ch583Kbd.Tmk Ch583Kbd.Lib Ch583Kbd.Lib.Block Ch583Kbd.Eeprom StorageType

variable (C : PageFlash.Cell (0xFF : Byte)) (img : Image) (d : Device)

/-- The commands without a response. -/
def HidCommand.Silent (len : Byte) : HidCommand → Prop
  | .setSingleConfig | .enterDfu => True
  | .getSingleConfig | .readConfig | .resetConfig => len.toNat = 1
  | _ => False

/-- The block that a command puts bytes into. -/
def HidCommand.writes : HidCommand → Option StorageType
  | .setSingleKey | .setAllKeys => some storageKeymap
  | .setAllMacro => some storageMacro
  | _ => none

/-- What is left after a command. -/
inductive HidOutcome (command len : Byte) : Handled → Prop
  | silent (c : HidCommand) (cleared : Bool) (hc : HidCommand.ofByte command = some c)
      (hs : c.Silent len) (hclear : cleared = true → c = .enterDfu) :
      HidOutcome command len { device := d, cleared := cleared }
  | refused (r : HidResponse) : HidOutcome command len (hidResponseGeneric d r)
  | read (data : List Byte) (hlen : data.length ≤ maxHidPacketSize) :
      HidOutcome command len (hidResponseSuccess d data)
  | saved (mask : Byte) (hc : HidCommand.ofByte command = some .writeConfig) :
      HidOutcome command len (writeData C d mask)
  | stored (t : StorageType) (offset : Nat) (bytes : List Byte) (r : HidResponse)
      (hc : (HidCommand.ofByte command).bind HidCommand.writes = some t) :
      HidOutcome command len (hidResponseGeneric (d.put t offset bytes) r)

/-- Every way to return has an outcome. -/
def Ends (command len : Byte) (x : Except Fault Handled) : Prop :=
  ∀ h, x = .ok h → HidOutcome C d command len h

variable {C d} {command len : Byte}

theorem ends_ok {h : Handled} (ho : HidOutcome C d command len h) :
    Ends C d command len (.ok h) := by
  rintro h' ⟨rfl⟩
  exact ho

theorem ends_bind {α : Type} {x : Except Fault α} {f : α → Except Fault Handled}
    (h : ∀ a, x = .ok a → Ends C d command len (f a)) : Ends C d command len (x >>= f) := by
  cases x with
  | error fault => exact fun _ heq => nomatch heq
  | ok a => exact h a rfl

theorem ends_withLen {n : Nat} {x : Except Fault Handled}
    (h : len.toNat = n → Ends C d command len x) : Ends C d command len (withLen d len n x) := by
  by_cases hlen : len.toNat = n
  · rw [withLen_eq d x hlen]
    exact h hlen
  · rw [withLen_ne d x hlen]
    exact ends_ok (.refused _)

/-- A read answers no more bytes than were asked for. -/
theorem storageReadData_length {s : Storage} {t : StorageType} {offset n : BitVec 16}
    {r : BitVec 16 × List Byte} (h : storageReadData s t offset n = .ok r) :
    r.2.length ≤ n.toNat := by
  cases hp : storageGetDataPointer t with
  | none =>
    rw [storageReadData_none offset n hp] at h
    cases h
    exact Nat.zero_le _
  | some size =>
    by_cases hoff : offset.toNat ≤ size.toNat
    · have hclamp := clampLen_toNat n hoff
      rw [storageReadData_ok n hp hoff] at h
      cases h
      exact Nat.le_trans (List.length_take_le _ _) (by omega)
    · rw [storageReadData_over n hp (by omega)] at h
      cases h

/-- The commands that read a block end as said. -/
theorem ends_getAll (t : StorageType) (offset : BitVec 16) :
    Ends C d command len (getAll d t offset) := by
  unfold getAll responseStorage
  rw [if_neg (by decide)]
  apply ends_bind
  intro r hr
  exact ends_ok (.read _ (storageReadData_length hr))

/-- A block command that returns has put the bytes that fit. -/
theorem setStorage_inv {t : StorageType} {size offset n : BitVec 16} {data : Nat → Option Byte}
    {h : Handled} (hp : storageGetDataPointer t = some size)
    (hok : setStorage d t offset data n = .ok h) :
    ∃ bytes r, fetch data (clampLen size offset n).toNat = some bytes ∧
      h = hidResponseGeneric (d.put t offset.toNat bytes) r := by
  by_cases hoff : offset.toNat ≤ size.toNat
  · cases hfetch : fetch data (clampLen size offset n).toNat with
    | none =>
      unfold setStorage storageWriteData at hok
      simp [hp, copyIn, hfetch, bind, Except.bind] at hok
    | some bytes =>
      rw [setStorage_ok d n hp hoff hfetch] at hok
      cases hok
      exact ⟨bytes, _, rfl, rfl⟩
  · obtain ⟨fault, hfault⟩ := setStorage_over d n data hp (Nat.lt_of_not_le hoff)
    rw [hfault] at hok
    cases hok

/-- The commands that write a block end as said. -/
theorem ends_setStorage {t : StorageType} (offset n : BitVec 16) (data : Nat → Option Byte)
    (hc : (HidCommand.ofByte command).bind HidCommand.writes = some t) :
    Ends C d command len (setStorage d t offset data n) := by
  intro h hok
  cases hp : storageGetDataPointer t with
  | none =>
    cases hcmd : HidCommand.ofByte command with
    | none =>
      rw [hcmd] at hc
      cases hc
    | some c =>
      rw [hcmd] at hc
      cases c <;> cases hc <;> cases hp
  | some size =>
    obtain ⟨bytes, r, -, rfl⟩ := setStorage_inv hp hok
    exact .stored t _ bytes r hc

/-- **Every command ends in one of the outcomes.** -/
theorem hidOnRecv_outcome (C : PageFlash.Cell (0xFF : Byte)) (d : Device)
    {data : Nat → Option Byte} {h : Handled}
    (hok : hidOnRecv C img d command len data = .ok h) : HidOutcome C d command len h := by
  revert h
  show Ends C d command len (hidOnRecv C img d command len data)
  unfold hidOnRecv
  cases hc : HidCommand.ofByte command with
  | none => exact ends_ok (.refused .undefined)
  | some c =>
    cases c with
    | getInformation => exact ends_withLen fun _ => ends_ok (.read _ (by decide))
    | getSingleKey =>
      refine ends_withLen fun _ => ends_bind fun layer _ => ends_bind fun row _ =>
        ends_bind fun col _ => ends_ok (.read _ ?_)
      simp [uint16Seq, maxHidPacketSize]
    | getSingleFn | getAllFns =>
      exact ends_withLen fun _ => ends_bind fun _ _ => ends_ok (.refused .undefined)
    | getAllKeys | getAllMacro | getAllEncoder =>
      exact ends_withLen fun _ => ends_bind fun offset _ => ends_getAll _ offset
    | getSingleConfig | readConfig | resetConfig =>
      exact ends_withLen fun hlen => ends_bind fun _ _ => ends_ok (.silent _ false hc hlen nofun)
    | setSingleKey =>
      exact ends_withLen fun _ => ends_bind fun layer _ => ends_bind fun row _ =>
        ends_bind fun col _ => ends_bind fun keycode _ =>
          ends_setStorage _ _ _ (by rw [hc]; rfl)
    | setSingleFn =>
      exact ends_withLen fun _ => ends_bind fun _ _ => ends_bind fun _ _ =>
        ends_ok (.refused .undefined)
    | setAllKeys | setAllMacro =>
      exact ends_bind fun id _ => ends_setStorage _ _ _ (by rw [hc]; rfl)
    | setAllFns | setAllEncoder =>
      exact ends_bind fun _ _ => ends_ok (.refused .undefined)
    | setSingleConfig =>
      exact ends_bind fun _ _ => ends_ok (.silent _ false hc trivial nofun)
    | enterDfu => exact ends_ok (.silent _ _ hc trivial fun _ => rfl)
    | writeConfig =>
      exact ends_withLen fun _ => ends_bind fun mask _ => ends_ok (.saved mask hc)
    | getAllConfig | setAllConfig => exact ends_ok (.refused .undefined)

/-! ## Writes of the keymap -/

/-- The offset in `keymap_block` that a command asks for, the number of
bytes and where it takes them from. -/
def keymapRequest (command len : Byte) (data : Nat → Option Byte) :
    Option (BitVec 16 × BitVec 16 × (Nat → Option Byte)) :=
  match HidCommand.ofByte command with
  | some .setSingleKey => do
    guard (len.toNat = 5)
    let layer ← data 0
    let row ← data 1
    let col ← data 2
    let lo ← data 3
    let hi ← data 4
    let keycode := lo.setWidth 16 + hi.setWidth 16 <<< 8
    return (keyIndex layer row col, 2, fun i => (uint16Seq keycode)[i]?)
  | some .setAllKeys => do
    let id ← data 0
    return (packetOffset id, len.setWidth 16, fun i => data (i + 1))
  | _ => none

/-- The bytes that a command puts into `keymap_block`, and where. -/
def keymapWrite (command len : Byte) (data : Nat → Option Byte) : Option (Nat × List Byte) := do
  let (offset, n, source) ← keymapRequest command len data
  let bytes ← fetch source (clampLen 1120 offset n).toNat
  return (offset.toNat, bytes)

theorem byteAt_inv {data : Nat → Option Byte} {i : Nat} {b : Byte} (h : byteAt data i = .ok b) :
    data i = some b := by
  unfold byteAt at h
  cases hd : data i with
  | none =>
    rw [hd] at h
    cases h
  | some b' =>
    rw [hd] at h
    cases h
    rfl

theorem wordAt_inv {data : Nat → Option Byte} {i : Nat} {w : BitVec 16}
    (h : wordAt data i = .ok w) : ∃ lo hi, data i = some lo ∧ data (i + 1) = some hi ∧
      w = lo.setWidth 16 + hi.setWidth 16 <<< 8 := by
  obtain ⟨lo, hlo, h⟩ := bind_ok h
  obtain ⟨hi, hhi, h⟩ := bind_ok h
  cases h
  exact ⟨lo, hi, byteAt_inv hlo, byteAt_inv hhi, rfl⟩

/-- A request that is carried out is what `keymapWrite` gives. -/
theorem keymapWrite_of_request {data source : Nat → Option Byte} {offset n : BitVec 16}
    {h : Handled} (hreq : keymapRequest command len data = some (offset, n, source))
    (hok : setStorage d storageKeymap offset source n = .ok h) :
    ∃ bytes, keymapWrite command len data = some (offset.toNat, bytes) ∧
      h.device.storage = putBytes d.storage storageKeymap offset.toNat bytes := by
  obtain ⟨bytes, r, hfetch, rfl⟩ := setStorage_inv pointer_keymap hok
  refine ⟨bytes, ?_, rfl⟩
  unfold keymapWrite
  rw [hreq]
  show (fetch source (clampLen 1120 offset n).toNat).bind _ = _
  rw [hfetch]
  rfl

/-- **A command leaves the stored keymap alone or puts the bytes of
`keymapWrite` into it.** -/
theorem hidOnRecv_keymapWrite (C : PageFlash.Cell (0xFF : Byte)) (d : Device)
    {data : Nat → Option Byte} {h : Handled}
    (hok : hidOnRecv C img d command len data = .ok h) :
    (h.device.storage.block storageKeymap = d.storage.block storageKeymap ∧
      h.device.storage.keymapValid = d.storage.keymapValid) ∨
    ∃ offset bytes, keymapWrite command len data = some (offset, bytes) ∧
      h.device.storage = putBytes d.storage storageKeymap offset bytes := by
  by_cases hc : (HidCommand.ofByte command).bind HidCommand.writes = some storageKeymap
  · cases hcmd : HidCommand.ofByte command with
    | none =>
      rw [hcmd] at hc
      cases hc
    | some c =>
      rw [hcmd] at hc
      unfold hidOnRecv at hok
      rw [hcmd] at hok
      cases c with
      | setSingleKey =>
        by_cases hlen : len.toNat = 5
        · right
          replace hok := (withLen_eq d _ hlen).symm.trans hok
          obtain ⟨layer, hlayer, hok⟩ := bind_ok hok
          obtain ⟨row, hrow, hok⟩ := bind_ok hok
          obtain ⟨col, hcol, hok⟩ := bind_ok hok
          obtain ⟨keycode, hcode, hset⟩ := bind_ok hok
          obtain ⟨lo, hi, hlo, hhi, rfl⟩ := wordAt_inv hcode
          have hreq : keymapRequest command len data =
            some (keyIndex layer row col, (2 : BitVec 16),
              fun i : Nat => (uint16Seq (lo.setWidth 16 + hi.setWidth 16 <<< 8))[i]?) := by
            unfold keymapRequest
            rw [hcmd, byteAt_inv hlayer, byteAt_inv hrow, byteAt_inv hcol, hlo, hhi]
            simp [hlen]
          obtain ⟨bytes, hw, hafter⟩ := keymapWrite_of_request hreq hset
          exact ⟨_, bytes, hw, hafter⟩
        · left
          cases (withLen_ne d _ hlen).symm.trans hok
          exact ⟨rfl, rfl⟩
      | setAllKeys =>
        right
        obtain ⟨id, hid, hset⟩ := bind_ok hok
        have hreq : keymapRequest command len data =
            some (packetOffset id, len.setWidth 16, fun i => data (i + 1)) := by
          unfold keymapRequest
          rw [hcmd, byteAt_inv hid]
          rfl
        obtain ⟨bytes, hw, hafter⟩ := keymapWrite_of_request hreq hset
        exact ⟨_, bytes, hw, hafter⟩
      | _ => cases hc
  · left
    cases hidOnRecv_outcome img C d hok with
    | stored t offset bytes r hc' =>
      have hne : t ≠ storageKeymap := by
        rintro rfl
        exact hc hc'
      exact ⟨putBytes_other d.storage offset bytes (Ne.symm hne),
        putBytes_keymapValid d.storage offset bytes hne⟩
    | _ => exact ⟨rfl, rfl⟩

end Ch583Kbd.Usb
