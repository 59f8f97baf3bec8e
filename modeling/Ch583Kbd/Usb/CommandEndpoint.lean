/-
Ch583Kbd.Usb.CommandEndpoint — endpoint 3, with commands of the host in one
direction and responses in the other.

`EP3_Databuf` has the 64 bytes of the OUT buffer and behind them the 64
bytes of the IN buffer. A packet goes to the start of the OUT buffer and
leaves the rest of it as it was; `DevEP3_OUT_Deal` looks at the buffer and
not at the length of the packet. A handler that is asked for more than the
two buffers have, or for an offset beyond its block, leaves what it may
touch. `hidOnRecv_ok_iff` says when none does.
-/
import Ch583Kbd.Usb.OutPackets
import Ch583Kbd.Usb.PacketBytes

namespace Ch583Kbd.Usb

open Ch583Kbd.Tmk Ch583Kbd.Lib Ch583Kbd.Lib.Block Ch583Kbd.Eeprom StorageType

structure Ep3 where
  outBuf : Vector Byte 64 := Vector.replicate 64 0
  wire : Endpoint := {}
  device : Device := {}

/-- A packet arrives in a buffer. -/
def receive (buf : Vector Byte 64) (p : OutPacket) : Vector Byte 64 := write buf 0 p.bytes

namespace Ep3

/-- `EP3_Databuf`. -/
def databuf (s : Ep3) : List Byte := s.outBuf.toList ++ s.wire.inDataBuf

/-- `DevEP3_OUT_Deal`. -/
def deal (C : PageFlash.Cell (0xFF : Byte)) (img : Image) (s : Ep3) : Except Fault Handled :=
  devEp3OutDeal C img s.device fun i => s.databuf[i]?

/-- `hid_send_data`; `stack` is what its array holds before. -/
def hidSend (s : Ep3) (stack : Vector Byte 64) (data : List Byte) : Ep3 :=
  { s with wire := UsbState.put s.wire (hidSendData stack data).toList 64 }

/-- The endpoint with a packet in its buffer. -/
def received (s : Ep3) (p : OutPacket) : Ep3 := { s with outBuf := receive s.outBuf p }

/-- `R8_UEP3_CTRL ^= RB_UEP_R_TOG`, and what the command leaves. -/
def accepted (s : Ep3) (d : Device) : Ep3 :=
  { s with wire := { s.wire with ctrl := s.wire.ctrl ^^^ rbUepRTog }, device := d }

/-- The endpoint after a command. -/
def after (s : Ep3) (stack : Vector Byte 64) (h : Handled) : Ep3 :=
  h.reply.elim (s.accepted h.device) ((s.accepted h.device).hidSend stack)

/-- The case `UIS_TOKEN_OUT | 3`, with what the command leaves. -/
def outHandler (C : PageFlash.Cell (0xFF : Byte)) (img : Image) (togOk : Bool) (p : OutPacket)
    (stack : Vector Byte 64) (s : Ep3) : Except Fault (Ep3 × Handled) :=
  let s := s.received p
  if togOk then do
    let h ← s.deal C img
    return (s.after stack h, h)
  else .ok (s, { device := s.device })

end Ep3

/-! ## Bounds -/

/-- The offset is in the block, and the bytes behind the packet id that are
copied are in `EP3_Databuf`. -/
def CopyInBounds (t : StorageType) (offset len : BitVec 16) : Prop :=
  offset.toNat ≤ blockSize t ∧ min len.toNat (blockSize t - offset.toNat) ≤ 124

/-- The command leaves neither the block that it reads or writes nor
`EP3_Databuf`; `f` are the bytes behind the len byte. -/
def HidCommand.InBounds (len : Byte) (f : Nat → Byte) : HidCommand → Prop
  | .getAllKeys => len.toNat = 2 →
    ((f 0).setWidth 16 + (f 1).setWidth 16 <<< 8 : BitVec 16).toNat ≤ blockSize storageKeymap
  | .getAllMacro => len.toNat = 2 →
    ((f 0).setWidth 16 + (f 1).setWidth 16 <<< 8 : BitVec 16).toNat ≤ blockSize storageMacro
  | .setSingleKey => len.toNat = 5 → (keyIndex (f 0) (f 1) (f 2)).toNat ≤ blockSize storageKeymap
  | .setAllKeys => CopyInBounds storageKeymap (packetOffset (f 0)) (len.setWidth 16)
  | .setAllMacro => CopyInBounds storageMacro (packetOffset (f 0)) ((len - 1).setWidth 16)
  | _ => True

/-- What is behind the len byte: `EP3_Databuf` has 125 bytes there. -/
structure DataBytes (data : Nat → Option Byte) (f : Nat → Byte) : Prop where
  inside : ∀ i, i < 125 → data i = some (f i)
  outside : ∀ i, 125 ≤ i → data i = none

section Handlers

variable {C : PageFlash.Cell (0xFF : Byte)} {img : Image} {d : Device} {command len : Byte}
  {data : Nat → Option Byte} {f : Nat → Byte}

/-- A handler that returns. -/
def Returns (x : Except Fault Handled) : Prop := ∃ h, x = .ok h

theorem returns_ok (h : Handled) : Returns (.ok h) := ⟨h, rfl⟩

theorem returns_error (fault : Fault) : ¬ Returns (.error fault) := by
  rintro ⟨h, heq⟩
  cases heq

/-- A handler that begins with a step that succeeds returns when its rest does. -/
theorem returns_bind {α : Type} (a : α) (k : α → Except Fault Handled) :
    Returns (Except.ok a >>= k) ↔ Returns (k a) := Iff.rfl

/-- A handler that tests its length returns at every other length. -/
theorem returns_withLen {n : Nat} {x : Except Fault Handled} :
    Returns (withLen d len n x) ↔ (len.toNat = n → Returns x) := by
  by_cases hlen : len.toNat = n
  · rw [withLen_eq d x hlen]
    exact ⟨fun h _ => h, fun h => h hlen⟩
  · rw [withLen_ne d x hlen]
    exact iff_of_true (returns_ok _) fun h => absurd h hlen

theorem DataBytes.byteAt (h : DataBytes data f) {i : Nat} (hi : i < 125) :
    byteAt data i = .ok (f i) := byteAt_some (h.inside i hi)

/-- A word inside the two buffers is read from its two bytes. -/
theorem DataBytes.wordAt (h : DataBytes data f) {i : Nat} (hi : i + 1 < 125) :
    wordAt data i = .ok ((f i).setWidth 16 + (f (i + 1)).setWidth 16 <<< 8) :=
  wordAt_some data i (h.inside i (by omega)) (h.inside (i + 1) hi)

/-- `set_storage` returns exactly if the offset is in the block and the
source has the bytes. -/
theorem returns_setStorage {t : StorageType} {size : BitVec 16} (offset n : BitVec 16)
    {m : Nat → Option Byte} {limit : Nat} (hp : storageGetDataPointer t = some size)
    (hm : ∀ i, (∃ b, m i = some b) ↔ i < limit) :
    Returns (setStorage d t offset m n) ↔ offset.toNat ≤ blockSize t ∧
      min n.toNat (blockSize t - offset.toNat) ≤ limit := by
  have hsize := toNat_size hp
  by_cases hoff : offset.toNat ≤ size.toNat
  · have hn := clampLen_toNat n hoff
    have hfetch := fetch_isSome_iff m (clampLen size offset n).toNat
    simp only [hm] at hfetch
    rw [← hsize, ← hn]
    constructor
    · rintro ⟨h, hok⟩
      obtain ⟨bytes, r, hbytes, -⟩ := setStorage_inv hp hok
      refine ⟨hoff, ?_⟩
      by_contra hlimit
      exact absurd (hfetch.mp ⟨bytes, hbytes⟩ limit (by omega)) (Nat.lt_irrefl limit)
    · rintro ⟨-, hlimit⟩
      obtain ⟨bytes, hbytes⟩ := hfetch.mpr fun i hi => by omega
      exact ⟨_, setStorage_ok d n hp hoff hbytes⟩
  · obtain ⟨fault, hfault⟩ := setStorage_over d n m hp (Nat.lt_of_not_le hoff)
    rw [hfault]
    refine iff_of_false (returns_error fault) ?_
    rintro ⟨hle, -⟩
    omega

/-- `response_storage` returns exactly if the offset is in the block, or
there is no block. -/
theorem returns_getAll (t : StorageType) (offset : BitVec 16) :
    Returns (getAll d t offset) ↔
      (storageGetDataPointer t ≠ none → offset.toNat ≤ blockSize t) := by
  cases hp : storageGetDataPointer t with
  | none =>
    refine iff_of_true ?_ (fun h => absurd rfl h)
    unfold getAll responseStorage
    rw [if_neg (by decide), storageReadData_none _ _ hp]
    exact returns_ok _
  | some size =>
    have hsize := toNat_size hp
    rw [← hsize]
    by_cases hoff : offset.toNat ≤ size.toNat
    · rw [getAll_ok d hp hoff]
      exact iff_of_true (returns_ok _) fun _ => hoff
    · unfold getAll responseStorage
      rw [if_neg (by decide), storageReadData_over _ hp (Nat.lt_of_not_le hoff)]
      exact iff_of_false (returns_error _) fun h => hoff (h (by simp))

/-- An entry has two bytes to be read. -/
theorem entry_bytes (keycode : BitVec 16) (i : Nat) :
    (∃ b, (uint16Seq keycode)[i]? = some b) ↔ i < 2 := by
  rw [← Option.isSome_iff_exists, isSome_getElem?]
  rfl

/-- **A command returns exactly if it stays within bounds.** -/
theorem hidOnRecv_ok_iff (hdata : DataBytes data f) :
    Returns (hidOnRecv C img d command len data) ↔
      ∀ c, HidCommand.ofByte command = some c → c.InBounds len f := by
  have hbehind : ∀ i, (∃ b, data (i + 1) = some b) ↔ i < 124 := by
    intro i
    by_cases hi : i < 124
    · exact iff_of_true ⟨_, hdata.inside (i + 1) (by omega)⟩ hi
    · refine iff_of_false ?_ hi
      rw [hdata.outside (i + 1) (by omega)]
      simp
  have h0 := hdata.byteAt (by decide : 0 < 125)
  have h1 := hdata.byteAt (by decide : 1 < 125)
  have h2 := hdata.byteAt (by decide : 2 < 125)
  have hw0 := hdata.wordAt (by decide : 0 + 1 < 125)
  have hw1 := hdata.wordAt (by decide : 1 + 1 < 125)
  have hw3 := hdata.wordAt (by decide : 3 + 1 < 125)
  unfold hidOnRecv
  cases hc : HidCommand.ofByte command with
  | none => exact iff_of_true (returns_ok _) nofun
  | some c =>
    have hone : ∀ P : HidCommand → Prop, (∀ c', some c = some c' → P c') ↔ P c := by simp
    rw [hone]
    -- each handler in turn: the bytes it reads, the part of a block it sends or stores
    cases c with
    | getAllKeys =>
      simp only [HidCommand.InBounds, returns_withLen, hw0, returns_bind, getAllKeys,
        returns_getAll]
      exact imp_congr_right fun _ => forall_prop_of_true (by decide)
    | getAllMacro =>
      simp only [HidCommand.InBounds, returns_withLen, hw0, returns_bind, getAllMacro,
        returns_getAll]
      exact imp_congr_right fun _ => forall_prop_of_true (by decide)
    | getAllEncoder =>
      simp only [HidCommand.InBounds, returns_withLen, hw0, returns_bind,
        getAllEncoders, returns_getAll]
      exact iff_of_true (fun _ h => absurd rfl h) trivial
    | setSingleKey =>
      simp only [HidCommand.InBounds, returns_withLen, h0, h1, h2, hw3, returns_bind,
        setSingleKey, returns_setStorage _ _ pointer_keymap (entry_bytes _)]
      exact imp_congr_right fun _ =>
        and_iff_left (Nat.le_trans (Nat.min_le_left _ _) (by decide))
    | setAllKeys =>
      simp only [HidCommand.InBounds, h0, returns_bind, setAllKeys, setAll,
        returns_setStorage _ _ pointer_keymap hbehind]
      rfl
    | setAllMacro =>
      simp only [HidCommand.InBounds, h0, returns_bind, setAllMacro, setAll,
        returns_setStorage _ _ pointer_macros hbehind]
      rfl
    | getAllConfig | setAllConfig | enterDfu => exact iff_of_true (returns_ok _) trivial
    | getInformation => exact iff_of_true (returns_withLen.mpr fun _ => returns_ok _) trivial
    | setSingleConfig | setAllFns | setAllEncoder =>
      rw [h0]
      exact iff_of_true (returns_ok _) trivial
    | setSingleFn =>
      rw [h0, hw1]
      exact iff_of_true (returns_withLen.mpr fun _ => returns_ok _) trivial
    | getSingleKey =>
      rw [h0, h1, h2]
      exact iff_of_true (returns_withLen.mpr fun _ => returns_ok _) trivial
    | _ =>
      rw [h0]
      exact iff_of_true (returns_withLen.mpr fun _ => returns_ok _) trivial

/-- Whether a command stays in bounds depends on the first three bytes of its
data. -/
theorem inBounds_congr {f' : Nat → Byte} (h : ∀ i, i < 3 → f i = f' i) (c : HidCommand) :
    c.InBounds len f ↔ c.InBounds len f' := by
  have h0 := h 0 (by decide)
  have h1 := h 1 (by decide)
  have h2 := h 2 (by decide)
  cases c <;> simp only [HidCommand.InBounds, h0, h1, h2]

/-- A command answers unless it is silent at this length. -/
theorem hidOnRecv_reply {h : Handled} (hdata : DataBytes data f)
    (hok : hidOnRecv C img d command len data = .ok h) :
    h.reply = none ↔ ∃ c, HidCommand.ofByte command = some c ∧ c.Silent len := by
  constructor
  · intro hnone
    by_contra hloud
    simp only [not_exists, not_and] at hloud
    obtain ⟨p, hp, -⟩ := reply_length C img d hloud hok
    rw [hnone] at hp
    cases hp
  · rintro ⟨c, hc, hs⟩
    obtain ⟨cleared, hsilent⟩ := hidOnRecv_silent C img d hc hs (hdata.inside 0 (by decide))
    rw [hsilent] at hok
    obtain rfl := Except.ok.inj hok
    rfl

/-- `clear_keyboard` is called by `ENTER_DFU` alone. -/
theorem hidOnRecv_cleared {h : Handled} (hok : hidOnRecv C img d command len data = .ok h) :
    h.cleared = true ↔ HidCommand.ofByte command = some .enterDfu ∧ len.toNat = 1 := by
  by_cases hdfu : HidCommand.ofByte command = some .enterDfu
  · unfold hidOnRecv at hok
    rw [hdfu] at hok
    obtain rfl := Except.ok.inj hok
    simp [hdfu]
  · refine iff_of_false ?_ fun h => hdfu h.1
    cases hidOnRecv_outcome img C d hok with
    | silent c cleared hc hs hclear =>
      intro hcleared
      rw [hclear hcleared] at hc
      exact hdfu hc
    | _ => exact Bool.false_ne_true

end Handlers

/-! ## The buffer -/

def bufByte (b : Vector Byte 64) (i : Nat) : Byte := b[i]?.getD 0

/-- The command in the OUT buffer stays within bounds. -/
def BufInBounds (b : Vector Byte 64) : Prop :=
  ∀ c, HidCommand.ofByte (bufByte b 1) = some c →
    c.InBounds (bufByte b 2) fun i => bufByte b (i + 3)

/-- The command in the OUT buffer is silent. -/
def BufSilent (b : Vector Byte 64) : Prop :=
  ∃ c, HidCommand.ofByte (bufByte b 1) = some c ∧ c.Silent (bufByte b 2)

namespace Ep3

variable {C : PageFlash.Cell (0xFF : Byte)} {img : Image} {s : Ep3}

theorem databuf_get (s : Ep3) (i : Nat) (h : i < 64) :
    s.databuf[i]? = some (bufByte s.outBuf i) := by
  rw [databuf, List.getElem?_append_left (by simpa using h)]
  simp [bufByte, h]

/-- Behind the first three bytes of a packet, the buffers hold 125 bytes that
can be read. -/
theorem databuf_bytes (h : s.wire.inDataBuf.length = 64) :
    DataBytes (fun i => s.databuf[i + 3]?) fun i => s.databuf[i + 3]?.getD 0 := by
  have hlen : s.databuf.length = 128 := by
    simp [databuf, h]
  constructor
  · intro i hi
    rw [List.getElem?_eq_getElem (by omega)]
    rfl
  · intro i hi
    exact List.getElem?_eq_none (by omega)

/-- A packet that begins with 0x3F is a command with its length and data. -/
theorem deal_command (h : bufByte s.outBuf 0 = 0x3F) : s.deal C img =
    hidOnRecv C img s.device (bufByte s.outBuf 1) (bufByte s.outBuf 2) fun i =>
      s.databuf[i + 3]? := by
  unfold deal devEp3OutDeal
  rw [byteAt_some (s.databuf_get 0 (by decide)), byteAt_some (s.databuf_get 1 (by decide)),
    byteAt_some (s.databuf_get 2 (by decide)), h]
  rfl

/-- Any other packet is ignored. -/
theorem deal_other (h : bufByte s.outBuf 0 ≠ 0x3F) : s.deal C img = .ok { device := s.device } := by
  unfold deal devEp3OutDeal
  rw [byteAt_some (s.databuf_get 0 (by decide))]
  exact if_neg h

/-- **A command returns exactly when it stays in bounds.** -/
theorem deal_returns_iff (C : PageFlash.Cell (0xFF : Byte)) (img : Image)
    (hcmd : bufByte s.outBuf 0 = 0x3F) (h : s.wire.inDataBuf.length = 64) :
    Returns (s.deal C img) ↔ BufInBounds s.outBuf := by
  rw [deal_command hcmd, hidOnRecv_ok_iff (databuf_bytes h)]
  refine forall_congr' fun c => imp_congr_right fun _ => inBounds_congr ?_ c
  intro i hi
  rw [databuf_get s (i + 3) (by omega)]
  rfl

/-- A command has no response exactly when it is silent. -/
theorem deal_reply {h : Handled} (hcmd : bufByte s.outBuf 0 = 0x3F)
    (hlen : s.wire.inDataBuf.length = 64) (hok : s.deal C img = .ok h) :
    h.reply = none ↔ BufSilent s.outBuf := by
  rw [deal_command hcmd] at hok
  exact hidOnRecv_reply (databuf_bytes hlen) hok

/-- Only `ENTER_DFU` of length 1 clears the watch-dog bits. -/
theorem deal_cleared {h : Handled} (hok : s.deal C img = .ok h) :
    h.cleared = true ↔ bufByte s.outBuf 0 = 0x3F ∧
      HidCommand.ofByte (bufByte s.outBuf 1) = some .enterDfu ∧ (bufByte s.outBuf 2).toNat = 1 := by
  by_cases hcmd : bufByte s.outBuf 0 = 0x3F
  · rw [deal_command hcmd] at hok
    rw [hidOnRecv_cleared hok, and_iff_right hcmd]
  · rw [deal_other hcmd] at hok
    obtain rfl := Except.ok.inj hok
    exact iff_of_false Bool.false_ne_true fun h => hcmd h.1

/-- A response comes from a command that is not silent. -/
theorem deal_answers {h : Handled} (hlen : s.wire.inDataBuf.length = 64)
    (hok : s.deal C img = .ok h) :
    h.reply ≠ none ↔ bufByte s.outBuf 0 = 0x3F ∧ BufInBounds s.outBuf ∧ ¬ BufSilent s.outBuf := by
  by_cases hcmd : bufByte s.outBuf 0 = 0x3F
  · have hbounds := (deal_returns_iff C img hcmd hlen).mp ⟨h, hok⟩
    simp [deal_reply hcmd hlen hok, hcmd, hbounds]
  · rw [deal_other hcmd] at hok
    obtain rfl := Except.ok.inj hok
    exact iff_of_false (fun h => h rfl) fun h => hcmd h.1

-- what is in the buffers is no matter here
attribute [local irreducible] write

/-- A command leaves the size of the IN buffer. -/
theorem after_size (hsize : s.wire.inDataBuf.length = 64) (stack : Vector Byte 64) (h : Handled) :
    (s.after stack h).wire.inDataBuf.length = 64 := by
  unfold after
  cases h.reply with
  | none => exact hsize
  | some data => exact put_inBuf (e := (s.accepted h.device).wire) hsize (by simp) (by decide)

/-- The OUT handler passes on what the command answers. -/
theorem outHandler_of_deal {p : OutPacket} {h : Handled} (stack : Vector Byte 64)
    (hdeal : (s.received p).deal C img = .ok h) :
    s.outHandler C img true p stack = .ok ((s.received p).after stack h, h) := by
  unfold outHandler
  dsimp only
  rw [if_pos rfl, hdeal]
  rfl

end Ep3

end Ch583Kbd.Usb
