/-
Ch583Kbd.Usb.ControlStandardRequests — the standard requests but
`USB_GET_DESCRIPTOR`.

`served_plain` is about the requests that have no reply: they are correct
from host to device, or if they are refused. The replies have one or two
bytes. For an interface `USB_GET_STATUS` does not write the first one.
-/
import Ch583Kbd.Usb.ControlReplies

namespace Ch583Kbd.Usb

open Ch583Kbd.Lib Ch583Kbd.Lib.Block

namespace Ep0

variable {s s' : Ep0} {r : Request} {n : Nat}

/-! ## Standard requests -/

/-- A half that is halted has its toggle bit cleared. -/
def Halts (s : Ep0) : Prop :=
  ∀ e h, s.epCtrl e &&& Half.mask h = h.stall → s.epCtrl e &&& h.tog = 0

/-- The test of the source finds a half stalled only when its toggle bit is
clear. -/
theorem stall_iff (c : Byte) (h : Half) : c &&& (h.tog ||| h.mask) = h.stall ↔
    c &&& h.mask = h.stall ∧ c &&& h.tog = 0 := by
  revert c
  cases h <;> decide +kernel

/-- While stalled halves have a clear toggle bit, the test of the source is
right. -/
theorem halfStalled_eq (hs : Halts s) (e : Fin 3) (h : Half) :
    s.halfStalled e h = decide (s.epCtrl e &&& h.mask = h.stall) := by
  unfold halfStalled
  rw [decide_eq_decide, stall_iff]
  exact ⟨And.left, fun hm => ⟨hm, hs e h hm⟩⟩

/-- The length of a reply is cut to what was asked for. -/
theorem limitLen_toNat (s : Ep0) (k : BitVec 16) :
    (s.limitLen k).toNat = min s.setupReqLen.toNat k.toNat := by
  unfold limitLen
  split <;> omega

/-- The requests that are answered with STALL. -/
def refused (r : Request) : Bool :=
  match StandardCode.ofByte r.bRequest with
  | some .clearFeature => r.featureRefused (r.wIndex &&& 0xFF).toNat
  | some .setFeature => r.featureRefused r.wIndex.toNat
  | some _ => false
  | none => true

/-- `CLEAR_FEATURE` reads no descriptor and refuses what `featureRefused` says. -/
theorem clearFeature_frame (s : Ep0) (r : Request) :
    (s.clearFeature r).1.setupReqCode = s.setupReqCode ∧ (s.clearFeature r).1.reads = s.reads ∧
      (s.clearFeature r).2 = r.featureRefused (r.wIndex &&& 0xFF).toNat := by
  unfold clearFeature Request.featureRefused
  cases r.recipient with
  | device =>
    refine ⟨?_, ?_, rfl⟩
    · dsimp only
      split <;> rfl
    · dsimp only
      split <;> rfl
  | endpoint =>
    dsimp only
    cases endpointHalf (r.wIndex &&& 0xFF).toNat <;> exact ⟨rfl, rfl, rfl⟩
  | _ => exact ⟨rfl, rfl, rfl⟩

/-- `SET_FEATURE` reads no descriptor and refuses what `featureRefused` says of
the whole index. -/
theorem setFeature_frame (s : Ep0) (r : Request) :
    (s.setFeature r).1.setupReqCode = s.setupReqCode ∧ (s.setFeature r).1.reads = s.reads ∧
      (s.setFeature r).2 = r.featureRefused r.wIndex.toNat := by
  unfold setFeature Request.featureRefused
  cases r.recipient with
  | device =>
    refine ⟨?_, ?_, rfl⟩
    · dsimp only
      split <;> rfl
    · dsimp only
      split <;> rfl
  | endpoint =>
    dsimp only
    cases endpointHalf r.wIndex.toNat <;> exact ⟨rfl, rfl, rfl⟩
  | _ => exact ⟨rfl, rfl, rfl⟩

/-- The requests but `USB_GET_DESCRIPTOR` read nothing. -/
theorem standard_frame (s : Ep0) (r : Request)
    (h : StandardCode.ofByte r.bRequest ≠ some .getDescriptor) :
    ∃ s', s.standardRequest r = .ok (s', refused r) ∧ s'.setupReqCode = s.setupReqCode ∧
      s'.reads = s.reads := by
  unfold standardRequest refused
  cases hc : StandardCode.ofByte r.bRequest with
  | none => exact ⟨s, rfl, rfl, rfl⟩
  | some k =>
    cases k with
    | getDescriptor => exact absurd hc h
    | clearFeature =>
      obtain ⟨hcode, hreads, herr⟩ := clearFeature_frame s r
      exact ⟨_, congrArg Except.ok (Prod.ext rfl herr), hcode, hreads⟩
    | setFeature =>
      obtain ⟨hcode, hreads, herr⟩ := setFeature_frame s r
      exact ⟨_, congrArg Except.ok (Prod.ext rfl herr), hcode, hreads⟩
    | getStatus => exact ⟨s.getStatus r, rfl, by rw [getStatus], by rw [getStatus]⟩
    | getConfiguration =>
      exact ⟨s.answerOne s.devConfig, rfl, by rw [answerOne, answer], by rw [answerOne, answer]⟩
    | getInterface =>
      exact ⟨s.answerOne 0x00, rfl, by rw [answerOne, answer], by rw [answerOne, answer]⟩
    | _ => exact ⟨_, rfl, rfl, rfl⟩

/-- A standard request is handled by its own switch. -/
theorem handle_standard (hk : r.kind = .standard) (s : Ep0) :
    s.handleRequest r = s.standardRequest r := by
  unfold handleRequest
  rw [hk]

theorem standardCode_six {c : Byte} (h : StandardCode.ofByte c ≠ some .getDescriptor) :
    c ≠ 0x06 := by
  rintro rfl
  exact h rfl

/-- A standard request without a reply is served when it sends nothing to the
host, or is refused. -/
theorem served_plain (hk : r.kind = .standard)
    (h6 : StandardCode.ofByte r.bRequest ≠ some .getDescriptor) (hreply : r.reply s = none) :
    Served s ⟨r, n⟩ ↔ (r.deviceToHost = true → refused r = true) := by
  obtain ⟨s', hs', hcode, hreads⟩ := standard_frame (s.received r) r h6
  have hhandle := (handle_standard hk (s.received r)).trans hs'
  cases hrefused : refused r with
  | true =>
    rw [hrefused] at hhandle
    exact iff_of_true (served_refused hhandle (readsNamed_nil hreads)) fun _ => rfl
  | false =>
    rw [hrefused] at hhandle
    cases hdir : r.deviceToHost with
    | false =>
      have hcode' : s'.setupReqCode ≠ 0x06 := by
        rw [hcode]
        exact standardCode_six h6
      exact iff_of_true (served_out hdir hhandle hcode' hreads) nofun
    | true =>
      refine iff_of_false (not_served_unnamed hdir hreply ?_) fun h => nomatch h rfl
      intro q hq
      rw [← Except.ok.inj (hhandle.symm.trans hq)]

theorem answerOne_firstPacket (s : Ep0) (b : Byte) :
    (s.answerOne b).firstPacket = [b].take s.setupReqLen.toNat := by
  have hlen : (s.answerOne b).setupReqLen.toNat = min s.setupReqLen.toNat 1 := limitLen_toNat s 1
  have hhead : (s.answerOne b).databuf[0] = b := by
    rw [answerOne, answer, getElem_write]
    rfl
  unfold firstPacket
  rw [hlen, take_one _ (by omega), hhead, List.take_eq_take_iff, List.length_singleton]
  omega

theorem getStatus_firstPacket (s : Ep0) (r : Request) :
    (s.getStatus r).firstPacket = [s.statusByte r, 0x00].take s.setupReqLen.toNat := by
  have hlen : (s.getStatus r).setupReqLen.toNat = min s.setupReqLen.toNat 2 := limitLen_toNat s 2
  have hfirst : (s.getStatus r).databuf[0] = s.statusByte r := by
    rw [getStatus, getElem_write]
    rfl
  have hsecond : (s.getStatus r).databuf[1] = 0x00 := by
    rw [getStatus, getElem_write]
    rfl
  unfold firstPacket
  rw [hlen, take_two _ (by omega), hfirst, hsecond, List.take_eq_take_iff]
  simp only [List.length_cons, List.length_nil]
  omega

/-- The two status bytes are right exactly if the first one is, or none was
asked for. -/
theorem take_status {x y : Byte} {w : BitVec 16} :
    [x, 0x00].take w.toNat = [y, 0x00].take w.toNat ↔ w = 0 ∨ x = y := by
  have hzero : w = 0 ↔ w.toNat = 0 := BitVec.toNat_eq
  rw [hzero]
  cases w.toNat with
  | zero => simp
  | succ k => simp

/-- A standard request that is answered with a short reply. -/
theorem served_reply (hk : r.kind = .standard) {obj : List Byte}
    (h : (s.received r).standardRequest r = .ok (s', false))
    (hcode : r.bRequest ≠ 0x06) (hcode' : r.bRequest ≠ 0x03)
    (hframe : s'.setupReqCode = (s.received r).setupReqCode ∧ s'.reads = (s.received r).reads)
    (hreply : r.reply s = some obj) (hobj : obj.length ≤ 64) :
    Served s ⟨r, n⟩ ↔ (r.deviceToHost = true →
      n = 0 ∨ s'.firstPacket = obj.take r.wLength.toNat) := by
  have hhandle := (handle_standard hk (s.received r)).trans h
  rw [received_code, received_reads] at hframe
  obtain ⟨hsame, hreads⟩ := hframe
  rw [← hsame] at hcode hcode'
  cases hdir : r.deviceToHost with
  | false => exact iff_of_true (served_out hdir hhandle hcode hreads) nofun
  | true =>
    rw [served_short_iff hdir hhandle hcode hcode' hreads hreply hobj]
    exact ⟨fun hp _ => hp, fun hp => hp rfl⟩

/-- The replies that the standard requests name. -/
theorem reply_standard (hk : r.kind = .standard) {k : StandardCode}
    (h : StandardCode.ofByte r.bRequest = some k) : r.reply s =
      match k with
      | .getDescriptor => r.descriptor.map Descriptor.bytes
      | .getConfiguration => some [s.devConfig]
      | .getInterface => some [0x00]
      | .getStatus =>
        match r.recipient with
        | .device => some [if s.usbSleepStatus ≠ 0 then 0x02 else 0x00, 0x00]
        | .interface => some [0x00, 0x00]
        | .endpoint => some [if r.halted s then 0x01 else 0x00, 0x00]
        | .other => none
      | _ => none := by
  unfold Request.reply
  cases k with
  | getStatus =>
    cases hr : r.recipient <;> simp [hk, h]
  | _ => simp [hk, h]

/-! ## `USB_GET_STATUS` -/

/-- The first status byte that the handler gives, against the one named. -/
theorem statusByte_device (s : Ep0) (h : r.recipient = .device) :
    s.statusByte r = if s.usbSleepStatus ≠ 0 then 0x02 else 0x00 := by
  unfold statusByte
  rw [h]

/-- The status of an endpoint is whether it is halted. -/
theorem statusByte_endpoint (hs : Halts s) (h : r.recipient = .endpoint) :
    s.statusByte r = if r.halted s then 0x01 else 0x00 := by
  unfold statusByte Request.halted
  rw [h]
  dsimp only
  cases endpointHalf r.wIndex.toNat with
  | none => rfl
  | some eh =>
    obtain ⟨e, half⟩ := eh
    dsimp only
    rw [halfStalled_eq hs]

theorem received_head (s : Ep0) (r : Request) : (s.received r).databuf.get 0 = r.bRequestType := by
  show (write s.databuf 0 r.bytes)[0] = _
  rw [getElem_write]
  rfl

/-- For an interface the byte is left from the SETUP packet. -/
theorem statusByte_interface (s : Ep0) (h : r.recipient = .interface) :
    (s.received r).statusByte r = r.bRequestType ∧ r.bRequestType ≠ 0 := by
  constructor
  · unfold statusByte
    rw [h]
    exact received_head s r
  · intro hzero
    unfold Request.recipient at h
    rw [hzero] at h
    cases h

theorem received_epCtrl (s : Ep0) (r : Request) : (s.received r).epCtrl = s.epCtrl := by
  rw [received]

theorem received_sleep (s : Ep0) (r : Request) :
    (s.received r).usbSleepStatus = s.usbSleepStatus := by
  rw [received]

/-- `GET_STATUS` is served unless an interface is asked for bytes and polled, or
the recipient is none of the three. -/
theorem served_getStatus (hs : Halts s) (hk : r.kind = .standard)
    (hc : StandardCode.ofByte r.bRequest = some .getStatus) : Served s ⟨r, n⟩ ↔
      (r.deviceToHost = true → match r.recipient with
        | .interface => r.wLength = 0 ∨ n = 0
        | .other => False
        | _ => True) := by
  have hstd : (s.received r).standardRequest r = .ok ((s.received r).getStatus r, false) := by
    unfold standardRequest
    rw [hc]
  have hcode : r.bRequest ≠ 0x06 ∧ r.bRequest ≠ 0x03 := by
    constructor
    · intro h
      rw [h] at hc
      cases hc
    · intro h
      rw [h] at hc
      cases hc
  have hreply := reply_standard (s := s) hk hc
  have hpacket := getStatus_firstPacket (s.received r) r
  rw [received_len] at hpacket
  cases hrec : r.recipient with
  | other =>
    rw [hrec] at hreply
    rw [served_plain hk (by simp [hc]) hreply]
    simp [refused, hc]
  | interface =>
    rw [hrec] at hreply
    obtain ⟨hbyte, hne⟩ := statusByte_interface s hrec
    rw [served_reply hk hstd hcode.1 hcode.2 ⟨rfl, rfl⟩ hreply (by simp), hpacket, take_status,
      hbyte]
    simp only [hne, or_false]
    exact forall_congr' fun _ => or_comm
  | device =>
    rw [hrec] at hreply
    have hbyte := statusByte_device (s.received r) hrec
    rw [received_sleep] at hbyte
    rw [served_reply hk hstd hcode.1 hcode.2 ⟨rfl, rfl⟩ hreply (by simp), hpacket, take_status,
      hbyte]
    exact ⟨fun _ _ => trivial, fun _ _ => Or.inr (Or.inr rfl)⟩
  | endpoint =>
    rw [hrec] at hreply
    have hs' : Halts (s.received r) := by
      intro e h
      rw [received_epCtrl]
      exact hs e h
    have hbyte := statusByte_endpoint hs' hrec
    have hhalted : r.halted (s.received r) = r.halted s := by
      unfold Request.halted
      rw [received_epCtrl]
    rw [hhalted] at hbyte
    rw [served_reply hk hstd hcode.1 hcode.2 ⟨rfl, rfl⟩ hreply (by simp), hpacket, take_status,
      hbyte]
    exact ⟨fun _ _ => trivial, fun _ _ => Or.inr (Or.inr rfl)⟩

end Ep0

end Ch583Kbd.Usb
