/-
Ch583Kbd.Usb.FailedCommands — what a command that sets leaves behind when
it answers with an error.

The commands refused for their length or not built in change nothing. Of
the three that write, `SET_SINGLE_KEY` does not look at its coordinates,
so one out of range writes another key and answers with success, and
`SET_ALL_KEYS` and `SET_ALL_MACRO` answer an overflow after the copy. All
three leave the block if their offset is beyond it. `failsClean_iff` says
when a command is free of all this.
-/
import Ch583Kbd.Usb.SingleKey

namespace Ch583Kbd.Usb

open Ch583Kbd.Tmk Ch583Kbd.Lib Ch583Kbd.Lib.Block Ch583Kbd.Eeprom StorageType

variable (C : PageFlash.Cell (0xFF : Byte)) (img : Image) (d : Device)

/-- The `HID_CMD_SET_*` commands. -/
def HidCommand.isSet : HidCommand → Bool
  | .setSingleKey | .setSingleFn | .setAllKeys | .setAllFns | .setSingleConfig | .setAllConfig
  | .setAllMacro | .setAllEncoder => true
  | _ => false

/-- The response is `HID_RESP_UNDEFINED`, `HID_RESP_PARAMETER_ERROR` or
`HID_RESP_WRITE_OVERFLOW`. -/
def Failed (reply : Option (List Byte)) : Prop :=
  ∃ r ∈ [HidResponse.undefined, .parameterError, .writeOverflow], reply = some [r.toByte]

/-- A command that sets is handled within bounds, changes nothing if it
fails, and fails if it names a key out of range. -/
def FailsClean (command len : Byte) (f : Nat → Byte) : Prop :=
  ∀ c, HidCommand.ofByte command = some c → c.isSet = true →
    ∃ h, hidOnRecv C img d command len (fun i => some (f i)) = .ok h ∧
      (Failed h.reply → h.device.storage = d.storage) ∧
      (c = .setSingleKey → ¬ InRange (f 0) ⟨f 1, f 2⟩ → Failed h.reply)

/-- The data fits behind the offset, or what fits stands there already. -/
def Fits (t : StorageType) (offset len : BitVec 16) (f : Nat → Byte) : Prop :=
  offset.toNat + len.toNat ≤ blockSize t ∨
    (offset.toNat ≤ blockSize t ∧
      slice (d.storage.block t) offset.toNat (blockSize t - offset.toNat) =
        (List.range (blockSize t - offset.toNat)).map f ∧
      (t = storageKeymap → d.storage.checkKeymap = d.storage))

/-- The inputs on which a command that sets fails cleanly. -/
def Harmless (command len : Byte) (f : Nat → Byte) : Prop :=
  match HidCommand.ofByte command with
  | some .setSingleKey => len.toNat = 5 → InRange (f 0) ⟨f 1, f 2⟩ ∨
      ((keyIndex (f 0) (f 1) (f 2)).toNat = blockSize storageKeymap ∧
        d.storage.checkKeymap = d.storage)
  | some .setAllKeys =>
    Fits d storageKeymap (packetOffset (f 0)) (len.setWidth 16) fun i => f (i + 1)
  | some .setAllMacro =>
    Fits d storageMacro (packetOffset (f 0)) ((len - 1).setWidth 16) fun i => f (i + 1)
  | _ => True

/-! ## Responses -/

theorem failed_generic (d' : Device) (r : HidResponse) :
    Failed (hidResponseGeneric d' r).reply ↔
      r ∈ [HidResponse.undefined, .parameterError, .writeOverflow] := by
  cases r <;> simp [Failed, hidResponseGeneric, HidResponse.toByte]

/-- A refusal that answers before anything is copied touches nothing. -/
theorem refused_clean {P Q : Prop} {handled : Except Fault Handled} (r : HidResponse)
    (heq : handled = .ok (hidResponseGeneric d r))
    (h : r ∈ [HidResponse.undefined, .parameterError, .writeOverflow]) :
    ∃ h', handled = .ok h' ∧ (Failed h'.reply → h'.device.storage = d.storage) ∧
      (P → Q → Failed h'.reply) :=
  ⟨_, heq, fun _ => rfl, fun _ _ => (failed_generic d r).mpr h⟩

/-! ## Writing a block -/

/-- `set_storage` fails cleanly exactly if the data fits. -/
theorem setStorage_clean_iff {t : StorageType} {size : BitVec 16}
    (hp : storageGetDataPointer t = some size) (offset len : BitVec 16) (f : Nat → Byte) :
    (∃ h, setStorage d t offset (fun i => some (f i)) len = .ok h ∧
      (Failed h.reply → h.device.storage = d.storage)) ↔ Fits d t offset len f := by
  have hsize := toNat_size hp
  by_cases hoff : offset.toNat ≤ size.toNat
  · have hn := clampLen_toNat len hoff
    rw [setStorage_ok d len hp hoff (fetch_total f _)]
    by_cases hfit : offset.toNat + len.toNat ≤ blockSize t
    · constructor
      · exact fun _ => Or.inl hfit
      · intro _
        refine ⟨_, rfl, ?_⟩
        rw [if_neg (by omega), failed_generic]
        simp
    · have hlt : (clampLen size offset len).toNat < len.toNat := by omega
      have hrest : (clampLen size offset len).toNat = blockSize t - offset.toNat := by omega
      have hself := putBytes_eq_self_iff d.storage t offset.toNat
        ((List.range (blockSize t - offset.toNat)).map f) (by simp; omega)
      rw [List.length_map, List.length_range] at hself
      rw [if_pos hlt, hrest]
      constructor
      · rintro ⟨_, heq, hclean⟩
        cases heq
        have hsame := hclean ((failed_generic _ _).mpr (by simp))
        exact Or.inr ⟨by omega, hself.mp hsame⟩
      · rintro (hin | ⟨-, hsame⟩)
        · exact absurd hin hfit
        · exact ⟨_, rfl, fun _ => hself.mpr hsame⟩
  · obtain ⟨fault, hfault⟩ := setStorage_over d len (fun i => some (f i)) hp
      (Nat.lt_of_not_le hoff)
    rw [hfault]
    constructor
    · rintro ⟨_, heq, -⟩
      cases heq
    · rintro (hin | ⟨hle, -⟩) <;> omega

/-- The first index behind the block: nothing fits. -/
theorem setSingleKey_behind {layer row col : Byte} (keycode : BitVec 16)
    (hend : (keyIndex layer row col).toNat = 1120) : setSingleKey d layer row col keycode =
      .ok (hidResponseGeneric (d.put storageKeymap 1120 []) .writeOverflow) := by
  have hoff : (keyIndex layer row col).toNat ≤ (1120 : BitVec 16).toNat := Nat.le_of_eq hend
  have hzero : (clampLen 1120 (keyIndex layer row col) 2).toNat = 0 := by
    rw [clampLen_toNat 2 hoff, hend]
    rfl
  have hfetch : fetch (fun i => (uint16Seq keycode)[i]?)
      (clampLen 1120 (keyIndex layer row col) 2).toNat = some [] := by
    rw [hzero]
    rfl
  have hset := setStorage_ok d 2 pointer_keymap hoff hfetch
  rw [hzero, hend] at hset
  exact hset

/-- `SET_SINGLE_KEY` fails cleanly when its key is in range, or when its place
is right behind the block and a scan would find the flag as it is. -/
theorem setSingleKey_clean_iff (layer row col : Byte) (keycode : BitVec 16) :
    (∃ h, setSingleKey d layer row col keycode = .ok h ∧
      (Failed h.reply → h.device.storage = d.storage) ∧
      (¬ InRange layer ⟨row, col⟩ → Failed h.reply)) ↔
    InRange layer ⟨row, col⟩ ∨ ((keyIndex layer row col).toNat = blockSize storageKeymap ∧
      d.storage.checkKeymap = d.storage) := by
  have hindex := keyIndex_toNat layer row col
  rw [blockSize_keymap]
  by_cases hrange : InRange layer ⟨row, col⟩
  · refine iff_of_true ?_ (Or.inl hrange)
    have hok := setSingleKey_ok d keycode hrange
    rw [hok]
    refine ⟨_, rfl, ?_, fun hnot => absurd hrange hnot⟩
    rw [failed_generic]
    simp
  · rcases Nat.lt_trichotomy (keyIndex layer row col).toNat 1120 with hlt | hend | hover
    · -- the place of another key
      have hin : (keyIndex layer row col).toNat + 2 ≤ 1120 := by omega
      rw [setSingleKey_inside d keycode hin]
      constructor
      · rintro ⟨_, heq, -, hfail⟩
        cases heq
        have herr := (failed_generic _ _).mp (hfail hrange)
        simp at herr
      · rintro (hkey | ⟨hidx, -⟩)
        · exact absurd hkey hrange
        · omega
    · have hself := putBytes_eq_self_iff d.storage storageKeymap 1120 [] (Nat.le_refl 1120)
      rw [setSingleKey_behind d keycode hend]
      constructor
      · rintro ⟨_, heq, hclean, -⟩
        cases heq
        have hsame := hclean ((failed_generic _ _).mpr (by simp))
        exact Or.inr ⟨hend, (hself.mp hsame).2 rfl⟩
      · rintro (hin | ⟨-, hscan⟩)
        · exact absurd hin hrange
        · refine ⟨_, rfl, fun _ => hself.mpr ⟨by simp [slice], fun _ => hscan⟩, fun _ => ?_⟩
          rw [failed_generic]
          simp
    · obtain ⟨fault, hfault⟩ := setStorage_over d 2 (fun i => (uint16Seq keycode)[i]?)
        pointer_keymap hover
      have hset : setSingleKey d layer row col keycode = .error fault := hfault
      rw [hset]
      constructor
      · rintro ⟨_, heq, -⟩
        cases heq
      · rintro (hin | ⟨hidx, -⟩)
        · exact absurd hin hrange
        · omega

/-! ## Every command -/

/-- `SET_ALL_KEYS` writes a chunk of the keymap. -/
theorem hidOnRecv_setAllKeys {command : Byte} (len : Byte) (f : Nat → Byte)
    (h : HidCommand.ofByte command = some .setAllKeys) :
    hidOnRecv C img d command len (fun i => some (f i)) =
      setStorage d storageKeymap (packetOffset (f 0)) (fun i => some (f (i + 1)))
        (len.setWidth 16) := by
  unfold hidOnRecv
  rw [h]
  rfl

/-- `SET_ALL_MACRO` writes a chunk of the macros, without the id. -/
theorem hidOnRecv_setAllMacro {command : Byte} (len : Byte) (f : Nat → Byte)
    (h : HidCommand.ofByte command = some .setAllMacro) :
    hidOnRecv C img d command len (fun i => some (f i)) =
      setStorage d storageMacro (packetOffset (f 0)) (fun i => some (f (i + 1)))
        ((len - 1).setWidth 16) := by
  unfold hidOnRecv
  rw [h]
  rfl

theorem hidOnRecv_setSingleKey_total {command : Byte} (len : Byte) (f : Nat → Byte)
    (h : HidCommand.ofByte command = some .setSingleKey) :
    hidOnRecv C img d command len (fun i => some (f i)) =
      if len.toNat ≠ 5 then .ok (hidResponseGeneric d .parameterError)
      else setSingleKey d (f 0) (f 1) (f 2) ((f 3).setWidth 16 + (f 4).setWidth 16 <<< 8) := by
  unfold hidOnRecv
  rw [h]
  rfl

/-- The commands that set nothing in this keyboard. -/
theorem hidOnRecv_unsupported {command len : Byte} (f : Nat → Byte) {c : HidCommand}
    (hc : HidCommand.ofByte command = some c)
    (h : c ∈ [HidCommand.setAllConfig, .setAllFns, .setAllEncoder]) :
    hidOnRecv C img d command len (fun i => some (f i)) =
      .ok (hidResponseGeneric d .undefined) := by
  unfold hidOnRecv
  rw [hc]
  simp only [List.mem_cons, List.not_mem_nil, or_false] at h
  rcases h with rfl | rfl | rfl <;> rfl

/-- **A command that sets fails cleanly exactly if** its key is in range, its
data fits, or what it copies before it fails stands there already. -/
theorem failsClean_iff (command len : Byte) (f : Nat → Byte) :
    FailsClean C img d command len f ↔ Harmless d command len f := by
  unfold FailsClean Harmless
  cases hc : HidCommand.ofByte command with
  | none => simp
  | some c =>
    have hone : ∀ P : HidCommand → Prop, (∀ c', some c = some c' → P c') ↔ P c := by simp
    rw [hone]
    -- only three of the commands that set store anything before they answer
    cases c with
    | setSingleKey =>
      rw [hidOnRecv_setSingleKey_total C img d len f hc]
      by_cases hlen : len.toNat = 5
      · rw [if_neg (by simpa using hlen)]
        have hkey := setSingleKey_clean_iff d (f 0) (f 1) (f 2)
          ((f 3).setWidth 16 + (f 4).setWidth 16 <<< 8)
        simpa [HidCommand.isSet, hlen] using hkey
      · rw [if_pos hlen]
        constructor
        · exact fun _ hfive => absurd hfive hlen
        · exact fun _ _ => refused_clean d .parameterError rfl (by simp)
    | setAllKeys =>
      rw [hidOnRecv_setAllKeys C img d len f hc]
      have hfits := setStorage_clean_iff d pointer_keymap
        (packetOffset (f 0)) (len.setWidth 16) fun i => f (i + 1)
      simpa [HidCommand.isSet] using hfits
    | setAllMacro =>
      rw [hidOnRecv_setAllMacro C img d len f hc]
      have hfits := setStorage_clean_iff d pointer_macros
        (packetOffset (f 0)) ((len - 1).setWidth 16) fun i => f (i + 1)
      simpa [HidCommand.isSet] using hfits
    | setSingleFn =>
      simp only [iff_true]
      intro _
      have heq : hidOnRecv C img d command len (fun i => some (f i)) =
          if len.toNat ≠ 3 then .ok (hidResponseGeneric d .parameterError)
          else .ok (hidResponseGeneric d .undefined) := by
        unfold hidOnRecv
        rw [hc]
        rfl
      by_cases hlen : len.toNat ≠ 3
      · exact refused_clean d .parameterError (heq.trans (if_pos hlen)) (by simp)
      · exact refused_clean d .undefined (heq.trans (if_neg hlen)) (by simp)
    | setAllConfig | setAllFns | setAllEncoder =>
      simp only [iff_true]
      intro _
      exact refused_clean d .undefined (hidOnRecv_unsupported C img d f hc (by simp)) (by simp)
    | setSingleConfig =>
      simp only [iff_true]
      intro _
      have heq : hidOnRecv C img d command len (fun i => some (f i)) = .ok { device := d } := by
        unfold hidOnRecv
        rw [hc]
        rfl
      exact ⟨_, heq, fun _ => rfl, nofun⟩
    | _ => simp [HidCommand.isSet]

/-- The last packet of a keymap, sent with the length byte that counts the
packet id: 40 bytes fit and are copied, then the overflow is answered. -/
theorem overflow_after_copy : ¬ FailsClean clearBits ⟨fun _ _ => Action.no, fun _ => 0⟩ {} 0x33 41
    (fun i => if i = 0 then 18 else 1) := by
  intro hclean
  obtain ⟨h, heq, hsame, -⟩ := hclean .setAllKeys rfl rfl
  rw [hidOnRecv_setAllKeys _ _ _ _ _ rfl] at heq
  have hfits := (setStorage_clean_iff {} pointer_keymap _ _ _).mp
    ⟨h, heq, hsame⟩
  rcases hfits with hin | ⟨-, hstored, -⟩
  · exact absurd hin (by decide)
  · have hone : (1 : Byte) ∈ slice (({} : Storage).block storageKeymap) (packetOffset 18).toNat
        (blockSize storageKeymap - (packetOffset 18).toNat) := by
      refine Eq.mpr (congrArg (fun l => (1 : Byte) ∈ l) hstored) ?_
      exact List.mem_map.mpr ⟨0, List.mem_range.mpr (by decide), rfl⟩
    have hblock := List.mem_of_mem_drop (List.mem_of_mem_take hone)
    have hzero := List.eq_of_mem_replicate (Vector.toList_replicate ▸ hblock)
    exact absurd hzero (by decide)

end Ch583Kbd.Usb
