/-
Ch583Kbd.Usb.ChunkedTransfer — a whole keymap or all macros in packets of
60 bytes.

The len byte of a packet counts its id. `SET_ALL_MACRO` takes the id off
again, so that each packet writes its payload and nothing else, and the
packets can come in any order (`sendAll_macros`). `SET_ALL_KEYS` passes the
len byte on as it is: every packet writes one byte too many, and the last
one overflows the block (`keys_last`).
-/
import Ch583Kbd.Usb.FailedCommands

namespace Ch583Kbd.Usb

open Ch583Kbd.Tmk Ch583Kbd.Lib Ch583Kbd.Lib.Block Ch583Kbd.Eeprom StorageType

variable (C : PageFlash.Cell (0xFF : Byte)) (img : Image)

/-- What is transferred as a whole. -/
inductive Bulk where
  | keys | macros
  deriving DecidableEq, Repr

namespace Bulk

def type : Bulk → StorageType
  | keys => storageKeymap
  | macros => storageMacro

def setCommand : Bulk → Byte
  | keys => 0x33
  | macros => 0x37

def getCommand : Bulk → Byte
  | keys => 0x23
  | macros => 0x27

/-- The number of packets. -/
def count (b : Bulk) : Nat := (blockSize b.type + 59) / 60

end Bulk

/-- The data of a packet: its id, its payload, and what lies behind it. -/
def packetData (image : List Byte) (behind : Nat → Byte) (k : Nat) : Nat → Byte
  | 0 => BitVec.ofNat 8 k
  | i + 1 => (chunk 60 k image)[i]?.getD (behind i)

/-- The len byte of a packet. -/
def packetLen (image : List Byte) (k : Nat) : Byte :=
  BitVec.ofNat 8 (1 + (chunk 60 k image).length)

/-- Send packets one after the other; the device and the responses. -/
def sendAll (b : Bulk) (image : List Byte) (behind : Nat → Nat → Byte) (d : Device) :
    List Nat → Except Fault (Device × List (Option (List Byte)))
  | [] => .ok (d, [])
  | k :: ks => do
    let h ← hidOnRecv C img d b.setCommand (packetLen image k)
      fun i => some (packetData image (behind k) k i)
    let (d', replies) ← sendAll b image behind h.device ks
    return (d', h.reply :: replies)

/-- Read the block back at the offsets 0, 60, 120, .. -/
def readAll (b : Bulk) (d : Device) : List Nat → Except Fault (List Byte)
  | [] => .ok []
  | k :: ks => do
    let h ← hidOnRecv C img d b.getCommand 2 fun i => (uint16Seq (BitVec.ofNat 16 (60 * k)))[i]?
    let rest ← readAll b h.device ks
    return h.reply.getD [] ++ rest

/-- The packets of an image, sent in some order, are all accepted, the block
is the image afterwards, and the host reads it back. -/
def RoundTrip (b : Bulk) (image : List Byte) (behind : Nat → Nat → Byte) (d : Device)
    (order : List Nat) : Prop :=
  ∃ d' replies, sendAll C img b image behind d order = .ok (d', replies) ∧
    (∀ reply ∈ replies, reply = some [HidResponse.success.toByte]) ∧
    (d'.storage.block b.type).toList = image ∧
    readAll C img b d' (List.range b.count) = .ok image

/-! ## One packet -/

/-- The payload of a packet, as `fetch` reads it. -/
theorem packetData_payload (image : List Byte) (behind : Nat → Byte) (k : Nat) :
    (List.range (chunk 60 k image).length).map (fun i => packetData image behind k (i + 1)) =
      chunk 60 k image := by
  apply List.ext_getElem
  · simp
  · intro i hi hi'
    simp [packetData, hi']

/-- The len byte counts the id and the chunk behind it. -/
theorem packetLen_toNat (image : List Byte) (k : Nat) :
    (packetLen image k).toNat = 1 + (chunk 60 k image).length := by
  have hlen := length_chunk 60 k image
  rw [packetLen, BitVec.toNat_ofNat]
  omega

/-- A macro packet puts its payload at its place. -/
theorem sendAll_macros_step (image : List Byte) (behind : Nat → Byte) (d : Device) {k : Nat}
    (himage : image.length = 1024) (hk : k < 18) :
    hidOnRecv C img d 0x37 (packetLen image k) (fun i => some (packetData image behind k i)) =
      .ok (hidResponseGeneric (d.put storageMacro (60 * k) (chunk 60 k image)) .success) := by
  have hlen := length_chunk 60 k image
  have hoff : (packetOffset (packetData image behind k 0)).toNat = 60 * k := by
    simp only [packetOffset, packetData, maxHidPacketSize, BitVec.toNat_ofNat]
    rw [Nat.mod_eq_of_lt (show k < 2 ^ 8 by omega)]
    omega
  have hpay : ((packetLen image k - 1).setWidth 16 : BitVec 16).toNat =
      (chunk 60 k image).length := by
    have hnat := packetLen_toNat image k
    rw [BitVec.toNat_setWidth, BitVec.toNat_sub, hnat]
    simp
    omega
  have hfits : (packetOffset (packetData image behind k 0)).toNat +
      ((packetLen image k - 1).setWidth 16 : BitVec 16).toNat ≤ (1024 : BitVec 16).toNat := by
    show _ ≤ 1024
    omega
  have hclamp := clampLen_fits hfits
  rw [hidOnRecv_setAllMacro C img d _ _ rfl, setStorage_ok d _
    pointer_macros (by omega)
      (by rw [hclamp, hpay]; exact fetch_total (fun i => packetData image behind k (i + 1)) _),
    hclamp, packetData_payload, hoff, if_neg (by omega)]

/-- The last keymap packet, 40 bytes long, is refused. -/
theorem keys_last (image : List Byte) (behind : Nat → Byte) (d : Device)
    (himage : image.length = 1120) :
    ∃ d', hidOnRecv C img d 0x33 (packetLen image 18)
      (fun i => some (packetData image behind 18 i)) =
        .ok (hidResponseGeneric d' .writeOverflow) := by
  have hlen := length_chunk 60 18 image
  have hnat := packetLen_toNat image 18
  have hoff : (packetOffset 18).toNat ≤ (1120 : BitVec 16).toNat := by decide
  have hclamp := clampLen_toNat ((packetLen image 18).setWidth 16) hoff
  have hwidth : ((packetLen image 18).setWidth 16 : BitVec 16).toNat = 41 := by
    rw [BitVec.toNat_setWidth, hnat]
    omega
  have hfit : (1120 : BitVec 16).toNat - (packetOffset 18).toNat = 40 := by decide
  rw [hwidth, hfit] at hclamp
  have hid : packetData image behind 18 0 = 18 := rfl
  rw [hidOnRecv_setAllKeys C img d _ _ rfl, hid,
    setStorage_ok d _ pointer_keymap hoff
    (fetch_total (fun i => packetData image behind 18 (i + 1)) _), hclamp,
    hwidth]
  exact ⟨_, rfl⟩

/-! ## The packets of an image -/

/-- Macro packets in any order, also only some of them: each is accepted, and
the block holds the payloads sent. -/
theorem sendAll_macros (image : List Byte) (behind : Nat → Nat → Byte)
    (himage : image.length = 1024) (order : List Nat) :
    ∀ d : Device, (∀ k ∈ order, k < 18) →
      ∃ d' replies, sendAll C img .macros image behind d order = .ok (d', replies) ∧
        (∀ reply ∈ replies, reply = some [HidResponse.success.toByte]) ∧
        ∀ i, (h : i < blockSize storageMacro) → (d'.storage.block storageMacro)[i] =
          if i / 60 ∈ order then image.get ⟨i, himage ▸ h⟩
            else (d.storage.block storageMacro)[i] := by
  induction order with
  | nil =>
    intro d _
    exact ⟨d, [], rfl, by simp, by simp⟩
  | cons k ks ih =>
    intro d hks
    have hk : k < 18 := hks k (by simp)
    have hstep := sendAll_macros_step C img image (behind k) d himage hk
    generalize hd1 : d.put storageMacro (60 * k) (chunk 60 k image) = d1 at hstep
    obtain ⟨d', replies, hrun, hreplies, hblock⟩ :=
      ih d1 fun k' hk' => hks k' (List.mem_cons_of_mem k hk')
    refine ⟨d', some [HidResponse.success.toByte] :: replies, ?_, ?_, ?_⟩
    · show (hidOnRecv C img d 0x37 (packetLen image k)
        (fun i => some (packetData image (behind k) k i)) >>= _) = _
      rw [hstep]
      show (sendAll C img .macros image behind d1 ks >>= _) = _
      rw [hrun]
      rfl
    · intro reply hmem
      rcases List.mem_cons.mp hmem with rfl | hmem
      · rfl
      · exact hreplies reply hmem
    · intro i hi
      rw [hblock i hi]
      by_cases hin : i / 60 ∈ ks
      · rw [if_pos hin, if_pos (List.mem_cons_of_mem k hin)]
      · rw [if_neg hin]
        have hd1block : d1.storage.block storageMacro =
            write (d.storage.block storageMacro) (60 * k) (chunk 60 k image) := by
          rw [← hd1, Device.put, putBytes_block]
        have hlt : i < 1024 := hi
        simp only [hd1block]
        have hchunk := length_chunk 60 k image
        by_cases heq : i / 60 = k
        · -- the byte belongs to this packet
          subst heq
          have hget := getElem?_chunk (by omega : 0 < 60) image i
          rw [if_pos (by simp), getElem_write _ _ _ _ hi, if_pos (by omega), hget,
            List.getElem?_eq_getElem (by omega)]
          rfl
        · rw [if_neg (by simp [heq, hin])]
          exact getElem_write_outside _ hi (by omega)

/-- The responses contain that of every packet sent. -/
theorem sendAll_reply {b : Bulk} {image : List Byte} {behind : Nat → Nat → Byte} {k : Nat}
    {order : List Nat} (hk : k ∈ order) : ∀ {d d' : Device} {replies : List (Option (List Byte))},
      sendAll C img b image behind d order = .ok (d', replies) →
      ∃ d1 h, hidOnRecv C img d1 b.setCommand (packetLen image k)
        (fun i => some (packetData image (behind k) k i)) = .ok h ∧ h.reply ∈ replies := by
  induction order with
  | nil => cases hk
  | cons k' ks ih =>
    intro d d' replies hrun
    obtain ⟨h, hstep, hrun⟩ := bind_ok hrun
    obtain ⟨r, hrest, hrun⟩ := bind_ok hrun
    cases hrun
    rcases List.mem_cons.mp hk with rfl | hmem
    · exact ⟨d, h, hstep, by simp⟩
    · obtain ⟨d1, h1, hrecv, hin⟩ := ih hmem hrest
      exact ⟨d1, h1, hrecv, List.mem_cons_of_mem _ hin⟩

/-! ## Reading back -/

/-- `GET_ALL_MACRO` over some of the offsets answers their chunks, in order. -/
theorem readAll_macros (d : Device) (order : List Nat) : (∀ k ∈ order, k < 18) →
    readAll C img .macros d order =
      .ok (order.flatMap fun k => chunk 60 k (d.storage.block storageMacro).toList) := by
  induction order with
  | nil => exact fun _ => rfl
  | cons k ks ih =>
    intro hks
    have hk : k < 18 := hks k (by simp)
    have hoff : (BitVec.ofNat 16 (60 * k)).toNat = 60 * k := by
      rw [BitVec.toNat_ofNat]
      omega
    have hrecv : hidOnRecv C img d 0x27 2
        (fun i => (uint16Seq (BitVec.ofNat 16 (60 * k)))[i]?) =
          getAllMacro d (BitVec.ofNat 16 (60 * k)) := by
      have hword := wordAt_some (fun i => (uint16Seq (BitVec.ofNat 16 (60 * k)))[i]?) 0
        rfl rfl
      rw [uint16_parts] at hword
      show (wordAt (fun i => (uint16Seq (BitVec.ofNat 16 (60 * k)))[i]?) 0 >>= fun word =>
        getAllMacro d word) = _
      rw [hword]
      rfl
    have hget : getAllMacro d (BitVec.ofNat 16 (60 * k)) =
        .ok (hidResponseSuccess d (chunk 60 k (d.storage.block storageMacro).toList)) := by
      have hle : (BitVec.ofNat 16 (60 * k)).toNat ≤ (1024 : BitVec 16).toNat := by
        show _ ≤ 1024
        omega
      have hall := getAll_ok d pointer_macros hle
      rw [getAllMacro, hall, hoff, slice, chunk]
      congr 2
      have hlen : (d.storage.block storageMacro).toList.length = 1024 := Vector.length_toList
      rw [List.take_eq_take_iff, List.length_drop, hlen]
      show min (min 60 (1024 - 60 * k)) _ = _
      omega
    show (hidOnRecv C img d 0x27 2 (fun i => (uint16Seq (BitVec.ofNat 16 (60 * k)))[i]?) >>= _) = _
    rw [hrecv, hget]
    show (readAll C img .macros d ks >>= _) = _
    rw [ih fun k' hk' => hks k' (List.mem_cons_of_mem k hk')]
    rfl

/-- A keymap is never accepted as a whole: its last chunk is refused. -/
theorem not_roundTrip_keys {image : List Byte} (himage : image.length = 1120)
    (behind : Nat → Nat → Byte) (d : Device) {order : List Nat} (hlast : 18 ∈ order) :
    ¬ RoundTrip C img .keys image behind d order := by
  rintro ⟨d', replies, hrun, hreplies, -, -⟩
  obtain ⟨d1, h, hrecv, hin⟩ := sendAll_reply C img hlast hrun
  obtain ⟨d2, hrefused⟩ := keys_last C img image (behind 18) d1 himage
  rw [Bulk.setCommand, hrefused] at hrecv
  cases hrecv
  have hreply := hreplies _ hin
  simp [hidResponseGeneric, HidResponse.toByte] at hreply

/-- **A transfer in packets goes round exactly for the macros**, whatever the
image, the order of the packets and the bytes behind them. -/
theorem roundTrip_iff (b : Bulk) (image : List Byte) (himage : image.length = blockSize b.type)
    (behind : Nat → Nat → Byte) (d : Device) (order : List Nat)
    (hperm : order.Perm (List.range b.count)) :
    RoundTrip C img b image behind d order ↔ b = .macros := by
  constructor
  · intro hround
    cases b with
    | macros => rfl
    | keys =>
      have hlast : 18 ∈ order := hperm.mem_iff.mpr (by decide)
      exact absurd hround (not_roundTrip_keys C img himage behind d hlast)
  · rintro rfl
    have hlt : ∀ k ∈ order, k < 18 := fun k hk => List.mem_range.mp (hperm.mem_iff.mp hk)
    obtain ⟨d', replies, hrun, hreplies, hblock⟩ :=
      sendAll_macros C img image behind himage order d hlt
    have hwhole : (d'.storage.block storageMacro).toList = image := by
      apply List.ext_getElem
      · rw [Vector.length_toList]
        exact himage.symm
      · intro i hi hi'
        have hlen : i < blockSize storageMacro := by rwa [himage] at hi'
        have hpacket : i / 60 < 18 := by
          rw [blockSize_macros] at hlen
          omega
        have hget := hblock i hlen
        rw [if_pos (hperm.mem_iff.mpr (List.mem_range.mpr hpacket))] at hget
        rw [Vector.getElem_toList]
        exact hget
    refine ⟨d', replies, hrun, hreplies, hwhole, ?_⟩
    show readAll C img .macros d' (List.range 18) = _
    rw [readAll_macros C img d' _ fun k hk => List.mem_range.mp hk, hwhole, flatMap_chunk,
      List.take_of_length_le (by rw [himage]; decide)]

/-- A macro image of zeros, sent in order, is read back. -/
theorem roundTrip_iff_zeros :
    (List.replicate 1024 (0 : Byte)).length = blockSize Bulk.macros.type ∧
    (List.range 18).Perm (List.range Bulk.macros.count) ∧
    (RoundTrip clearBits ⟨fun _ _ => Action.no, fun _ => 0⟩ .macros (List.replicate 1024 0)
      (fun _ _ => 0) {} (List.range 18) ↔ Bulk.macros = .macros) :=
  have himage : (List.replicate 1024 (0 : Byte)).length = blockSize Bulk.macros.type :=
    List.length_replicate
  ⟨himage, List.Perm.refl _,
    roundTrip_iff clearBits _ .macros _ himage _ {} (List.range 18) (List.Perm.refl _)⟩

/-- A keymap that is sent in order is not read back. -/
theorem keymap_refused : ¬ RoundTrip clearBits ⟨fun _ _ => Action.no, fun _ => 0⟩ .keys
    (List.replicate 1120 1) (fun _ _ => 0) {} (List.range 19) :=
  not_roundTrip_keys clearBits _ List.length_replicate _ {} (by decide)

end Ch583Kbd.Usb
