/-
Ch583Kbd.Usb.SingleKey — the commands `SET_SINGLE_KEY` and
`GET_SINGLE_KEY`.

A command that sets one key puts its two bytes into `keymap_block` and
scans the block again. While the stored keymap is in use before and after,
that changes the key and nothing else. The two other cases switch the
whole keyboard to another table: the first entry of an empty block takes
the default table away, the last entry that is cleared brings it back. The
law of one key then holds exactly if the two tables agree
(`setsOneKey_iff`).
-/
import Ch583Kbd.Eeprom.Keymap
import Ch583Kbd.Usb.HidOutcome

namespace Ch583Kbd.Usb

open Ch583Kbd.Tmk Ch583Kbd.Lib Ch583Kbd.Lib.Block Ch583Kbd.Eeprom StorageType

variable (C : PageFlash.Cell (0xFF : Byte)) (img : Image) (d : Device)

/-! ## The two commands -/

/-- The data of `SET_SINGLE_KEY`. -/
def keyData (layer : Byte) (key : KeyPos) (keycode : BitVec 16) : List Byte :=
  [layer, key.row, key.col] ++ uint16Seq keycode

/-- `SET_SINGLE_KEY` with the data of a key stores its code. -/
theorem hidOnRecv_setSingleKey (layer : Byte) (key : KeyPos) (keycode : BitVec 16) :
    hidOnRecv C img d 0x31 5 (fun i => (keyData layer key keycode)[i]?) =
      setSingleKey d layer key.row key.col keycode := by
  have hword := wordAt_some (fun i => (keyData layer key keycode)[i]?) 3 rfl rfl
  rw [uint16_parts] at hword
  show (wordAt (fun i => (keyData layer key keycode)[i]?) 3 >>= fun word =>
    setSingleKey d layer key.row key.col word) = _
  rw [hword]
  rfl

theorem hidOnRecv_getSingleKey (layer : Byte) (key : KeyPos) :
    hidOnRecv C img d 0x21 3 (fun i => [layer, key.row, key.col][i]?) =
      .ok (getSingleKey img d layer key.row key.col) := rfl

/-- Inside the block the clamp leaves the two bytes of an entry. -/
theorem fetch_entry {layer row col : Byte} (keycode : BitVec 16)
    (hin : (keyIndex layer row col).toNat + 2 ≤ 1120) :
    fetch (fun i => (uint16Seq keycode)[i]?)
      (clampLen 1120 (keyIndex layer row col) 2).toNat = some (uint16Seq keycode) := by
  rw [clampLen_fits hin]
  rfl

/-- An index inside the block, whosever it is, is written. -/
theorem setSingleKey_inside {layer row col : Byte} (keycode : BitVec 16)
    (hin : (keyIndex layer row col).toNat + 2 ≤ 1120) : setSingleKey d layer row col keycode =
      .ok (hidResponseGeneric
        (d.put storageKeymap (keyIndex layer row col).toNat (uint16Seq keycode)) .success) := by
  have hoff : (keyIndex layer row col).toNat ≤ (1120 : BitVec 16).toNat := by
    show _ ≤ 1120
    omega
  have hset := setStorage_ok d 2 pointer_keymap hoff (fetch_entry keycode hin)
  rw [clampLen_fits hin] at hset
  exact hset

/-- In range the command writes the entry of the key. -/
theorem setSingleKey_ok {layer : Byte} {key : KeyPos} (keycode : BitVec 16)
    (h : InRange layer key) : setSingleKey d layer key.row key.col keycode =
      .ok (hidResponseGeneric { d with storage := putKey d.storage layer key keycode }
        .success) :=
  setSingleKey_inside d keycode (keyIndex_lt h)

/-- What `SET_SINGLE_KEY` of a key in range writes to the block. -/
theorem keymapWrite_setSingleKey {layer : Byte} {key : KeyPos} (keycode : BitVec 16)
    (h : InRange layer key) : keymapWrite 0x31 5 (fun i => (keyData layer key keycode)[i]?) =
      some ((keyIndex layer key.row key.col).toNat, uint16Seq keycode) := by
  have hreq : keymapRequest 0x31 5 (fun i => (keyData layer key keycode)[i]?) =
      some (keyIndex layer key.row key.col, (2 : BitVec 16),
        fun i : Nat => (uint16Seq keycode)[i]?) := by
    show some (keyIndex layer key.row key.col, (2 : BitVec 16),
      fun i : Nat => (uint16Seq ((keycode.extractLsb' 0 8).setWidth 16 +
        (keycode.extractLsb' 8 8).setWidth 16 <<< 8))[i]?) = _
    rw [uint16_parts]
  unfold keymapWrite
  rw [hreq]
  show (fetch _ (clampLen 1120 (keyIndex layer key.row key.col) 2).toNat).bind _ = _
  rw [fetch_entry keycode (keyIndex_lt h)]
  rfl

/-! ## The law of one key -/

/-- The command sets the key, no other position of the keymap changes, and
`GET_SINGLE_KEY` answers the code. -/
def SetsOneKey (layer : Byte) (key : KeyPos) (keycode : BitVec 16) : Prop :=
  ∃ h, hidOnRecv C img d 0x31 5 (fun i => (keyData layer key keycode)[i]?) = .ok h ∧
    actionForKey img h.device.storage layer key = ⟨keycode⟩ ∧
    (∀ layer' key', InRange layer' key' → ¬ (layer' = layer ∧ key' = key) →
      actionForKey img h.device.storage layer' key' = actionForKey img d.storage layer' key') ∧
    ∃ g, hidOnRecv C img h.device 0x21 3 (fun i => [layer, key.row, key.col][i]?) = .ok g ∧
      g.reply = some (uint16Seq keycode)

/-- Every other position of the keymap. -/
def Others (layer : Byte) (key : KeyPos) (P : Byte → KeyPos → Prop) : Prop :=
  ∀ layer' key', InRange layer' key' → ¬ (layer' = layer ∧ key' = key) → P layer' key'

/-- The command leaves no entry in the block. -/
def ClearsLast (s : Storage) (layer : Byte) (key : KeyPos) (keycode : BitVec 16) : Prop :=
  keycode = 0 ∧ Others layer key fun layer' key' => storedAction s layer' key' = Action.no

/-- Where the command switches between the two tables, they agree. -/
structure TablesAgree (s : Storage) (layer : Byte) (key : KeyPos) (keycode : BitVec 16) :
    Prop where
  /-- The default table is in use before and not after. -/
  taken : s.keymapValid = false → ¬ ClearsLast s layer key keycode →
    Others layer key fun layer' key' => storedAction s layer' key' = img.actionmaps layer' key'
  /-- It is in use after, and answers for the key. -/
  cleared : ClearsLast s layer key keycode → img.actionmaps layer key = Action.no
  /-- It is in use after and not before. -/
  restored : s.keymapValid = true → ClearsLast s layer key keycode →
    Others layer key fun layer' key' => img.actionmaps layer' key' = Action.no

/-- The flag is clear afterwards exactly when the last stored code was cleared. -/
theorem putKey_valid_false (s : Storage) {layer : Byte} {key : KeyPos} (keycode : BitVec 16)
    (h : InRange layer key) :
    (putKey s layer key keycode).keymapValid = false ↔ ClearsLast s layer key keycode := by
  rw [← Bool.not_eq_true, putKey_valid_iff s keycode h, ClearsLast, Others]
  constructor
  · intro hno
    constructor
    · by_contra hcode
      exact hno (Or.inl hcode)
    · intro layer' key' hrange hother
      by_contra hne
      exact hno (Or.inr ⟨layer', key', hrange, hother, hne⟩)
  · rintro ⟨hcode, hall⟩ (hne | ⟨layer', key', hrange, hother, hne⟩)
    · exact hne hcode
    · exact hne (hall layer' key' hrange hother)

/-- What `action_for_key` answers for the key and the others after the
command. -/
theorem setsOneKey_iff_lookup {layer : Byte} {key : KeyPos} (keycode : BitVec 16)
    (h : InRange layer key) : SetsOneKey C img d layer key keycode ↔
      actionForKey img (putKey d.storage layer key keycode) layer key = ⟨keycode⟩ ∧
        Others layer key fun layer' key' =>
          actionForKey img (putKey d.storage layer key keycode) layer' key' =
            actionForKey img d.storage layer' key' := by
  unfold SetsOneKey
  rw [hidOnRecv_setSingleKey, setSingleKey_ok d keycode h]
  constructor
  · rintro ⟨_, heq, hkey, hothers, -⟩
    cases heq
    exact ⟨hkey, hothers⟩
  · rintro ⟨hkey, hothers⟩
    refine ⟨_, rfl, hkey, hothers, _, hidOnRecv_getSingleKey C img _ layer key, ?_⟩
    show some (uint16Seq (actionForKey img (putKey d.storage layer key keycode) layer key).code) = _
    rw [hkey]

/-- **`SET_SINGLE_KEY` sets one key exactly if the tables it switches
between agree.** -/
theorem setsOneKey_iff {layer : Byte} {key : KeyPos} (keycode : BitVec 16)
    (h : InRange layer key) : SetsOneKey C img d layer key keycode ↔
      TablesAgree img d.storage layer key keycode := by
  rw [setsOneKey_iff_lookup C img d keycode h, actionForKey_inRange img _ h]
  have hkey := storedAction_putKey d.storage keycode h
  have hvalid := putKey_valid_false d.storage keycode h
  have hother : ∀ layer' key', InRange layer' key' → ¬ (layer' = layer ∧ key' = key) →
      storedAction (putKey d.storage layer key keycode) layer' key' =
        storedAction d.storage layer' key' :=
    fun layer' key' hrange hne => storedAction_putKey_other d.storage keycode h hrange hne
  cases hafter : (putKey d.storage layer key keycode).keymapValid with
  | true =>
    -- the stored keymap is in use after the command
    have hleft : ¬ ClearsLast d.storage layer key keycode := by
      rw [← hvalid, hafter]
      simp
    rw [if_pos rfl]
    constructor
    · rintro ⟨-, hothers⟩
      constructor
      · intro hbefore _ layer' key' hrange hne
        have hlook : actionForKey img (putKey d.storage layer key keycode) layer' key' =
            actionForKey img d.storage layer' key' := hothers layer' key' hrange hne
        rw [actionForKey_inRange img _ hrange, actionForKey_inRange img _ hrange, hafter,
          hbefore, hother layer' key' hrange hne] at hlook
        simpa using hlook
      · exact fun hclears => absurd hclears hleft
      · exact fun _ hclears => absurd hclears hleft
    · intro hagree
      refine ⟨hkey, ?_⟩
      intro layer' key' hrange hne
      rw [actionForKey_inRange img _ hrange, actionForKey_inRange img _ hrange, hafter,
        hother layer' key' hrange hne]
      cases hbefore : d.storage.keymapValid with
      | true => rfl
      | false => simpa using hagree.taken hbefore hleft layer' key' hrange hne
  | false =>
    -- the block is empty, and the default table in use
    have hclears := hvalid.mp hafter
    obtain ⟨hcode, hempty⟩ := hclears
    rw [if_neg (by simp)]
    constructor
    · rintro ⟨hdefault, hothers⟩
      constructor
      · exact fun _ hnot => absurd ⟨hcode, hempty⟩ hnot
      · intro _
        rw [hdefault, hcode]
        rfl
      · intro hbefore _ layer' key' hrange hne
        have hlook : actionForKey img (putKey d.storage layer key keycode) layer' key' =
            actionForKey img d.storage layer' key' := hothers layer' key' hrange hne
        rw [actionForKey_inRange img _ hrange, actionForKey_inRange img _ hrange, hafter,
          hbefore, hempty layer' key' hrange hne] at hlook
        simpa using hlook
    · intro hagree
      refine ⟨?_, ?_⟩
      · rw [hagree.cleared ⟨hcode, hempty⟩, hcode]
        rfl
      · intro layer' key' hrange hne
        rw [actionForKey_inRange img _ hrange, actionForKey_inRange img _ hrange, hafter]
        cases hbefore : d.storage.keymapValid with
        | true =>
          rw [hempty layer' key' hrange hne]
          simpa using hagree.restored hbefore ⟨hcode, hempty⟩ layer' key' hrange hne
        | false => simp

/-- The first key of an empty block, set to a letter. -/
theorem setsOneKey_iff_first : InRange 0 ⟨0, 0⟩ ∧
    (SetsOneKey clearBits ⟨fun _ _ => ⟨0x0035⟩, fun _ => 0⟩ {} 0 ⟨0, 0⟩ 0x0004 ↔
      TablesAgree ⟨fun _ _ => ⟨0x0035⟩, fun _ => 0⟩ {} 0 ⟨0, 0⟩ 0x0004) :=
  ⟨by decide, setsOneKey_iff clearBits _ {} 0x0004 (by decide)⟩

/-- The first key that is stored clears all the others. -/
theorem first_key_clears :
    ¬ SetsOneKey clearBits ⟨fun _ _ => ⟨0x0035⟩, fun _ => 0⟩ {} 0 ⟨0, 0⟩ 0x0004 := by
  have h : InRange 0 ⟨0, 0⟩ := by decide
  have h' : InRange 0 ⟨0, 1⟩ := by decide
  have hne : ¬ ((0 : BitVec 8) = 0 ∧ (⟨0, 1⟩ : KeyPos) = ⟨0, 0⟩) := by decide
  rw [setsOneKey_iff_lookup _ _ _ _ h]
  rintro ⟨-, hothers⟩
  have hvalid : (putKey {} 0 ⟨0, 0⟩ 0x0004).keymapValid = true :=
    (putKey_valid_iff {} 0x0004 h).mpr (Or.inl (by decide))
  have hlook := hothers 0 ⟨0, 1⟩ h' hne
  simp only [actionForKey_inRange _ _ h', hvalid, storedAction_putKey_other _ 0x0004 h h' hne,
    storedAction_empty] at hlook
  simp [Action.no] at hlook

end Ch583Kbd.Usb
