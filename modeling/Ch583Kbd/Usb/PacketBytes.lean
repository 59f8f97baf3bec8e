/-
Ch583Kbd.Usb.PacketBytes — which bytes the handling of a packet on
endpoint 3 depends on.

`hid_send_data` fills a packet of 64 bytes from an array on the stack that
it writes at most 62 bytes of (`reply_length`), so the last two bytes of
every response are what the stack held before. The handlers follow the
command and len bytes of the buffer, not the received length, so a short
packet is completed by an earlier one. The effect depends on the received
bytes alone exactly if these bytes make sure that there is no response
(`onlyReceived_iff`).
-/
import Ch583Kbd.Usb.HidOutcome

namespace Ch583Kbd.Usb

open Ch583Kbd.Tmk Ch583Kbd.Lib Ch583Kbd.Lib.Block Ch583Kbd.Eeprom StorageType

variable (C : PageFlash.Cell (0xFF : Byte)) (img : Image) (d : Device)

/-- A transfer in the OUT buffer of endpoint 3. Nothing behind the 64 bytes
can be read. -/
def handlePacket (buf : Vector Byte 64) : Except Fault Handled :=
  devEp3OutDeal C img d fun i => buf[i]?

/-- Two transfers of length `l` with the bytes of `buf` have one effect,
whatever else is in the buffer and on the stack. -/
def OnlyReceived (buf : Vector Byte 64) (l : Nat) : Prop :=
  ∀ buf' : Vector Byte 64, (∀ i, (h : i < 64) → i < l → buf'[i] = buf[i]) →
    ∀ stack stack' : Vector Byte 64, ∃ h h', handlePacket C img d buf = .ok h ∧
      handlePacket C img d buf' = .ok h' ∧ h.device.storage = h'.device.storage ∧
      h.reply.map (hidSendData stack) = h'.reply.map (hidSendData stack')

/-- The received bytes exclude a response. -/
def NoResponse (buf : Vector Byte 64) (l : Nat) : Prop :=
  buf[0] ≠ 0x3F ∨
    (2 ≤ l ∧ ∃ c, HidCommand.ofByte buf[1] = some c ∧ ∀ len, c.Silent len) ∨
    (3 ≤ l ∧ ∃ c, HidCommand.ofByte buf[1] = some c ∧ c.Silent buf[2])

/-! ## Responses -/

/-- A response has at most 60 bytes. -/
theorem hidOnRecv_length {command len : Byte} {data : Nat → Option Byte} {h : Handled}
    {reply : List Byte}
    (hok : hidOnRecv C img d command len data = .ok h) (hreply : h.reply = some reply) :
    reply.length ≤ maxHidPacketSize := by
  have hone : ∀ r : HidResponse, [r.toByte].length ≤ maxHidPacketSize := fun r =>
    Nat.succ_le_succ (Nat.zero_le _)
  cases hidOnRecv_outcome img C d hok with
  | silent c cleared hc hs _ => cases hreply
  | refused r =>
    obtain rfl := Option.some.inj hreply
    exact hone r
  | read data hlen =>
    obtain rfl := Option.some.inj hreply
    exact hlen
  | saved mask _ =>
    obtain rfl := Option.some.inj hreply
    exact hone _
  | stored t offset bytes r _ =>
    obtain rfl := Option.some.inj hreply
    exact hone r

/-- Every command that is not silent answers with at most 60 bytes. -/
theorem reply_length {command len : Byte} {data : Nat → Option Byte} {h : Handled}
    (hloud : ∀ c, HidCommand.ofByte command = some c → ¬ c.Silent len)
    (hok : hidOnRecv C img d command len data = .ok h) :
    ∃ p, h.reply = some p ∧ p.length ≤ maxHidPacketSize := by
  have hsome : ∃ p, h.reply = some p := by
    cases hidOnRecv_outcome img C d hok with
    | silent c cleared hc hs _ => exact absurd hs (hloud c hc)
    | refused | read | saved | stored => exact ⟨_, rfl⟩
  obtain ⟨p, hp⟩ := hsome
  exact ⟨p, hp, hidOnRecv_length C img d hok hp⟩

/-- A silent command does nothing to the device. -/
theorem hidOnRecv_silent {command len b : Byte} {data : Nat → Option Byte} {c : HidCommand}
    (hc : HidCommand.ofByte command = some c) (hs : c.Silent len) (hdata : data 0 = some b) :
    ∃ cleared, hidOnRecv C img d command len data = .ok { device := d, cleared := cleared } := by
  unfold hidOnRecv
  rw [hc]
  have hbyte := byteAt_some hdata
  cases c with
  | setSingleConfig =>
    dsimp only
    rw [hbyte]
    exact ⟨_, rfl⟩
  | enterDfu => exact ⟨_, rfl⟩
  | getSingleConfig | readConfig | resetConfig =>
    dsimp only
    rw [withLen_eq d _ hs, hbyte]
    exact ⟨_, rfl⟩
  | _ => exact absurd hs id

/-! ## The packet -/

/-- The last byte of a response comes from the stack. -/
theorem hidSendData_last (stack : Vector Byte 64) {data : List Byte}
    (h : data.length ≤ maxHidPacketSize) : (hidSendData stack data)[63] = stack[63] := by
  rw [maxHidPacketSize] at h
  unfold hidSendData
  rw [getElem_write_outside _ (by omega) (by omega), getElem_write_outside _ (by omega) (by simp)]

/-- The command of a packet that starts with 0x3F. -/
theorem handlePacket_command {buf : Vector Byte 64} (h : buf[0] = 0x3F) :
    handlePacket C img d buf = hidOnRecv C img d buf[1] buf[2] fun i => buf[i + 3]? := by
  have h0 : byteAt (fun i => buf[i]?) 0 = .ok buf[0] := byteAt_some (by simp)
  have h1 : byteAt (fun i => buf[i]?) 1 = .ok buf[1] := byteAt_some (by simp)
  have h2 : byteAt (fun i => buf[i]?) 2 = .ok buf[2] := byteAt_some (by simp)
  unfold handlePacket devEp3OutDeal
  rw [h0, h1, h2, h]
  rfl

/-- A packet that does not begin with 0x3F is ignored. -/
theorem handlePacket_other {buf : Vector Byte 64} (h : buf[0] ≠ 0x3F) :
    handlePacket C img d buf = .ok { device := d } := by
  have h0 : byteAt (fun i => buf[i]?) 0 = .ok buf[0] := byteAt_some (by simp)
  unfold handlePacket devEp3OutDeal
  rw [h0]
  show (if buf[0] = 0x3F then _ else _) = _
  rw [if_neg h]
  rfl

/-- A packet with a response shows bytes of the stack. -/
theorem not_onlyReceived {buf : Vector Byte 64} (buf' : Vector Byte 64) {l : Nat}
    (hsame : ∀ i, (h : i < 64) → i < l → buf'[i] = buf[i]) (hcmd : buf'[0] = 0x3F)
    (hloud : ∀ c, HidCommand.ofByte buf'[1] = some c → ¬ c.Silent buf'[2]) :
    ¬ OnlyReceived C img d buf l := by
  intro honly
  obtain ⟨h1, h1', hok1, hok1', -, heq1⟩ := honly buf' hsame (Vector.replicate 64 0)
    (Vector.replicate 64 0)
  obtain ⟨h2, h2', hok2, hok2', -, heq2⟩ := honly buf' hsame (Vector.replicate 64 0)
    (Vector.replicate 64 1)
  obtain rfl : h1 = h2 := by
    rw [hok1] at hok2
    cases hok2
    rfl
  obtain rfl : h1' = h2' := by
    rw [hok1'] at hok2'
    cases hok2'
    rfl
  rw [handlePacket_command C img d hcmd] at hok1'
  obtain ⟨p, hp, hlen⟩ := reply_length C img d hloud hok1'
  rw [heq1, hp] at heq2
  have hlast : hidSendData (Vector.replicate 64 0) p = hidSendData (Vector.replicate 64 1) p :=
    Option.some.inj heq2
  have hbyte := congrArg (fun v : Vector Byte 64 => v[63]) hlast
  simp only [hidSendData_last _ hlen] at hbyte
  simp at hbyte

/-- A packet without a response shows nothing but what was received. -/
theorem onlyReceived_of_noResponse {buf : Vector Byte 64} {l : Nat} (hl : 1 ≤ l)
    (h : NoResponse buf l) : OnlyReceived C img d buf l := by
  -- a packet with the received bytes leaves the device as it is
  have hquiet : ∀ buf' : Vector Byte 64, (∀ i, (h : i < 64) → i < l → buf'[i] = buf[i]) →
      ∃ cleared, handlePacket C img d buf' = .ok { device := d, cleared := cleared } := by
    intro buf' hsame
    have h0 : buf'[0] = buf[0] := hsame 0 (by omega) (by omega)
    by_cases hcmd : buf'[0] = 0x3F
    · rw [handlePacket_command C img d hcmd]
      have hdata : buf'[0 + 3]? = some buf'[3] := by simp
      unfold NoResponse at h
      rcases h with hne | ⟨h2, c, hc, hs⟩ | ⟨h3, c, hc, hs⟩
      · rw [← h0] at hne
        exact absurd hcmd hne
      · have h1 : buf'[1] = buf[1] := hsame 1 (by omega) (by omega)
        rw [← h1] at hc
        exact hidOnRecv_silent C img d hc (hs _) hdata
      · have h1 : buf'[1] = buf[1] := hsame 1 (by omega) (by omega)
        have h2 : buf'[2] = buf[2] := hsame 2 (by omega) (by omega)
        rw [← h1] at hc
        rw [← h2] at hs
        exact hidOnRecv_silent C img d hc hs hdata
    · exact ⟨false, handlePacket_other C img d hcmd⟩
  intro buf' hsame stack stack'
  obtain ⟨cleared, hok⟩ := hquiet buf fun _ _ _ => rfl
  obtain ⟨cleared', hok'⟩ := hquiet buf' hsame
  exact ⟨_, _, hok, hok', rfl, (Option.map_none _).trans (Option.map_none _).symm⟩

/-- **A packet's effect depends on its received bytes alone exactly if these
exclude a response.** -/
theorem onlyReceived_iff (buf : Vector Byte 64) {l : Nat} (hl : 1 ≤ l) :
    OnlyReceived C img d buf l ↔ NoResponse buf l := by
  constructor
  · intro honly
    by_contra hno
    simp only [NoResponse, not_or, not_and, not_exists] at hno
    obtain ⟨hcmd, htwo, hthree⟩ := hno
    rw [not_not] at hcmd
    by_cases hl2 : 2 ≤ l
    · by_cases hl3 : 3 ≤ l
      · exact not_onlyReceived C img d buf (fun _ _ _ => rfl) hcmd
          (fun c hc => hthree hl3 c hc) honly
      · -- the len byte is not received: any len byte with a response
        cases hc : HidCommand.ofByte buf[1] with
        | none => exact not_onlyReceived C img d buf (fun _ _ _ => rfl) hcmd (by simp [hc]) honly
        | some c =>
          obtain ⟨len, hlen⟩ : ∃ len, ¬ c.Silent len := by
            by_contra hall
            exact htwo hl2 c hc fun len => by_contra fun hn => hall ⟨len, hn⟩
          refine not_onlyReceived C img d (buf.set 2 len) ?_ ?_ ?_ honly
          · intro i hi hil
            exact Vector.getElem_set_ne (by omega) hi (by omega)
          · simpa using hcmd
          · simpa [hc] using hlen
    · -- nor is the command byte
      refine not_onlyReceived C img d (buf.set 1 0) ?_ ?_ ?_ honly
      · intro i hi hil
        exact Vector.getElem_set_ne (by omega) hi (by omega)
      · simpa using hcmd
      · simp [HidCommand.ofByte]
  · exact onlyReceived_of_noResponse C img d hl

/-- `ENTER_DFU` is never answered, so two bytes are enough. -/
theorem onlyReceived_iff_dfu :
    OnlyReceived clearBits ⟨fun _ _ => Action.no, fun _ => 0⟩ {}
      (((Vector.replicate 64 0).set 0 0x3F).set 1 0x39) 2 :=
  (onlyReceived_iff clearBits _ {} _ (by decide)).mpr
    (.inr (.inl ⟨by decide, .enterDfu, by decide, fun _ => trivial⟩))

/-- `GET_INFORMATION` answers 18 bytes and 44 of the stack. -/
theorem information_shows_stack :
    ¬ OnlyReceived clearBits ⟨fun _ _ => Action.no, fun _ => 0⟩ {}
      (((Vector.replicate 64 0).set 0 0x3F).set 1 0x20) 3 := by
  refine not_onlyReceived clearBits _ {} _ (fun _ _ _ => rfl) (by decide) ?_
  intro c hc
  obtain rfl : HidCommand.getInformation = c := Option.some.inj hc
  exact id

end Ch583Kbd.Usb
