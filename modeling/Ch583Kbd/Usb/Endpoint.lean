/-
Ch583Kbd.Usb.Endpoint — the IN endpoints 1 and 2 of the keyboard:
`send_keyboard`, `send_mouse`, `send_system` and `send_consumer`
(`keyboard_host_driver.c`), `usb_send_key` and the IN cases of
`USB_DevTransProcess` (`usbuser1.c`), `DevEP1_IN_Deal` and
`DevEP2_IN_Deal` (`CH58x_usbdev.c`).

A host IN token is `poll`. The hardware is taken to answer a token with
the first `T_LEN` bytes of the IN buffer when the response in the control
register is ACK, and to run the IN handler then; `received` records the
packets. A send runs to completion between two tokens.

Each endpoint is a mailbox with room for one packet: nothing waits for the
previous packet to be fetched.
-/
import Ch583Kbd.Lib.Mailbox
import Ch583Kbd.Tmk.ActionUtil

namespace Ch583Kbd.Usb

open Ch583Kbd.Tmk Ch583Kbd.Lib

abbrev Byte := BitVec 8

def rbUepRTog : Byte := 0x80
def rbUepTTog : Byte := 0x40
def maskUepTRes : Byte := 0x03
def uepTResAck : Byte := 0x00
def uepTResNak : Byte := 0x02
def uepRResAck : Byte := 0x00

def reportIdMouse : Byte := 1
def reportIdSystem : Byte := 2
def reportIdConsumer : Byte := 3

/-- `memcpy(dst + at, src, len)`. -/
def memcpy (dst : List Byte) (offset : Nat) (src : List Byte) (len : Nat) : List Byte :=
  dst.take offset ++ src.take len ++ dst.drop (offset + len)

/-- The IN half of an endpoint, with what the host has fetched from it. -/
structure Endpoint where
  inDataBuf : List Byte := List.replicate 64 0
  tLen : Nat := 0
  ctrl : Byte := uepRResAck ||| uepTResNak
  received : List (List Byte) := []
  deriving DecidableEq, Repr

namespace Endpoint

/-- `DevEP1_IN_Deal`, `DevEP2_IN_Deal`. -/
def inDeal (e : Endpoint) (l : Nat) : Endpoint :=
  { e with tLen := l, ctrl := e.ctrl &&& ~~~maskUepTRes ||| uepTResAck }

/-- The case `UIS_TOKEN_IN` of `USB_DevTransProcess`. -/
def inHandler (e : Endpoint) : Endpoint :=
  { e with ctrl := (e.ctrl ^^^ rbUepTTog) &&& ~~~maskUepTRes ||| uepTResNak }

/-- An IN token. -/
def poll (e : Endpoint) : Endpoint :=
  if e.ctrl &&& maskUepTRes = uepTResAck then
    { e with received := e.received ++ [e.inDataBuf.take e.tLen] }.inHandler
  else e

end Endpoint

/-- The static buffers of `usbuser1.c` and the two endpoints. -/
structure UsbState where
  ep1 : Endpoint := {}
  ep2 : Endpoint := {}
  mouseReport : List Byte := [1, 0, 0, 0, 0, 0]
  extraReport : List Byte := [0, 0, 0]
  nrkoReport : List Byte := List.replicate 29 0
  deriving DecidableEq, Repr

namespace UsbState

/-- `memcpy(pEPx_IN_DataBuf, data, len); DevEPx_IN_Deal(len)`. -/
def put (e : Endpoint) (data : List Byte) (len : Nat) : Endpoint :=
  { e with inDataBuf := memcpy e.inDataBuf 0 data len }.inDeal len

def usbSendKey (u : UsbState) (reportId : Byte) (len : Nat) (report : List Byte) : UsbState :=
  if reportId = 0 then { u with ep1 := put u.ep1 report len }
  else if reportId = reportIdMouse then
    let mouse := memcpy u.mouseReport 1 report len
    { u with mouseReport := mouse, ep2 := put u.ep2 mouse (len + 1) }
  else if reportIdSystem ≤ reportId ∧ reportId ≤ reportIdConsumer then
    let extra := [reportId, report[0]?.getD 0 &&& 0xFF, report[1]?.getD 0 &&& 0xFF]
    { u with extraReport := extra, ep2 := put u.ep2 extra (len + 1) }
  else if reportId = 0x80 then
    let nrko := memcpy (u.nrkoReport.set 0 0x80) 1 report len
    { u with nrkoReport := nrko, ep2 := put u.ep2 nrko (len + 1) }
  else u

/-- The bytes of `report_mouse_t`. -/
def mouseBytes (r : MouseReport) : List Byte :=
  [r.buttons, BitVec.ofInt 8 r.x, BitVec.ofInt 8 r.y, BitVec.ofInt 8 r.v, BitVec.ofInt 8 r.h]

/-- The bytes of a `uint16_t`, lowest first. -/
def usageBytes (data : BitVec 16) : List Byte := [data.extractLsb' 0 8, data.extractLsb' 8 8]

/-- `send_keyboard`, `send_mouse`, `send_system` and `send_consumer`; `nkro`
is `keyboard_protocol && keyboard_nkro`. -/
def send (u : UsbState) (nkro : Bool) : HostReport → UsbState
  | .keyboard raw =>
    if nkro then u.usbSendKey 0x80 keyboardReportSize raw.toList
    else u.usbSendKey 0 8 raw.toList
  | .mouse report => u.usbSendKey reportIdMouse 5 (mouseBytes report)
  | .system usage => u.usbSendKey reportIdSystem 2 (usageBytes usage)
  | .consumer usage => u.usbSendKey reportIdConsumer 2 (usageBytes usage)

end UsbState

/-! ## Steps -/

inductive EndpointId where
  | ep1 | ep2
  deriving DecidableEq, Repr

inductive Step where
  | send (nkro : Bool) (report : HostReport)
  | poll (ep : EndpointId)
  deriving DecidableEq, Repr

def UsbState.endpoint (u : UsbState) : EndpointId → Endpoint
  | .ep1 => u.ep1
  | .ep2 => u.ep2

def Step.apply (u : UsbState) : Step → UsbState
  | .send nkro report => u.send nkro report
  | .poll .ep1 => { u with ep1 := u.ep1.poll }
  | .poll .ep2 => { u with ep2 := u.ep2.poll }

def runUsb (steps : List Step) : UsbState := steps.foldl Step.apply {}

/-! ## Packets -/

/-- The endpoint a report goes to, and the packet the host is to get. -/
def packet (nkro : Bool) : HostReport → EndpointId × List Byte
  | .keyboard raw => if nkro then (.ep2, 0x80 :: raw.toList) else (.ep1, raw.toList.take 8)
  | .mouse report => (.ep2, reportIdMouse :: UsbState.mouseBytes report)
  | .system usage => (.ep2, reportIdSystem :: UsbState.usageBytes usage)
  | .consumer usage => (.ep2, reportIdConsumer :: UsbState.usageBytes usage)

/-- What a step means for the mailbox of an endpoint. -/
def mailboxOp (ep : EndpointId) : Step → Option (Mailbox.Op (List Byte))
  | .send nkro report =>
    if (packet nkro report).1 = ep then some (.send (packet nkro report).2) else none
  | .poll ep' => if ep' = ep then some .read else none

/-- The packets sent to an endpoint. -/
def sentTo (ep : EndpointId) (steps : List Step) : List (List Byte) :=
  Mailbox.sent (steps.filterMap (mailboxOp ep))

/-! ## An endpoint is a mailbox -/

/-- The packet that waits for the host, and those it has fetched. -/
def Endpoint.box (e : Endpoint) : Mailbox.Box (List Byte) where
  letter := if e.ctrl &&& maskUepTRes = uepTResAck then some (e.inDataBuf.take e.tLen) else none
  got := e.received

theorem ack_of_inDeal (ctrl : Byte) :
    (ctrl &&& ~~~maskUepTRes ||| uepTResAck) &&& maskUepTRes = uepTResAck := by
  revert ctrl
  decide

theorem nak_of_inHandler (ctrl : Byte) :
    ((ctrl ^^^ rbUepTTog) &&& ~~~maskUepTRes ||| uepTResNak) &&& maskUepTRes ≠ uepTResAck := by
  revert ctrl
  decide

/-- What was copied stands at the start of the buffer. -/
theorem take_memcpy (dst src : List Byte) (len : Nat) (h : len ≤ src.length) :
    (memcpy dst 0 src len).take len = src.take len := by
  rw [memcpy, List.take_zero, List.nil_append, List.take_append_of_le_length]
  · rw [List.take_take, Nat.min_self]
  · exact Nat.le_of_eq (by rw [List.length_take, Nat.min_eq_left h])

/-- A packet put into the buffer replaces the one that waits. -/
theorem put_box (e : Endpoint) (data : List Byte) (len : Nat) (h : len ≤ data.length) :
    (UsbState.put e data len).box = e.box.step (.send (data.take len)) := by
  have hack := ack_of_inDeal e.ctrl
  simp only [UsbState.put, Endpoint.inDeal, Endpoint.box, Mailbox.Box.step, if_pos hack,
    take_memcpy _ _ _ h]

/-- An IN token fetches the packet that is armed. -/
theorem poll_box (e : Endpoint) : e.poll.box = e.box.step .read := by
  have hnak := nak_of_inHandler e.ctrl
  unfold Endpoint.poll
  split
  · next h =>
    unfold Endpoint.inHandler Endpoint.box Mailbox.Box.step
    dsimp only
    rw [if_neg hnak, if_pos h]
    rfl
  · next h => simp [Endpoint.box, Mailbox.Box.step, h]

/-- The header byte of the mouse buffer and the sizes of the buffers. -/
structure Buffers (u : UsbState) : Prop where
  mouse : ∃ rest, u.mouseReport = reportIdMouse :: rest ∧ rest.length = 5
  nrko : u.nrkoReport.length = 29

theorem memcpy_tail (x : Byte) (rest src : List Byte) (h : rest.length = src.length) :
    memcpy (x :: rest) 1 src src.length = x :: src := by
  rw [memcpy, List.take_length, List.drop_eq_nil_of_le (by rw [List.length_cons]; omega)]
  simp

/-- A report that is put into the buffer of endpoint 2 behind its header. -/
theorem put_tail_box (e : Endpoint) (x : Byte) (rest src : List Byte)
    (h : rest.length = src.length) :
    (UsbState.put e (memcpy (x :: rest) 1 src src.length) (src.length + 1)).box =
      e.box.step (.send (x :: src)) := by
  rw [memcpy_tail x rest src h, put_box _ _ _ (by simp)]
  rw [← List.length_cons (a := x), List.take_length]

theorem and_ff (b : Byte) : b &&& 0xFF = b := by
  revert b
  decide

/-- A usage report is put into endpoint 2 with its id and two bytes. -/
theorem put_usage_box (e : Endpoint) (id : Byte) (usage : BitVec 16) :
    (UsbState.put e [id, (UsbState.usageBytes usage)[0]?.getD 0 &&& 0xFF,
        (UsbState.usageBytes usage)[1]?.getD 0 &&& 0xFF] 3).box =
      e.box.step (.send (id :: UsbState.usageBytes usage)) := by
  rw [put_box _ _ _ (by simp), and_ff, and_ff]
  rfl

/-- A report becomes its packet on its own endpoint, and no other endpoint
changes. -/
theorem send_spec (u : UsbState) (hu : Buffers u) (nkro : Bool) (r : HostReport) :
    Buffers (u.send nkro r) ∧ ∀ ep, ((u.send nkro r).endpoint ep).box =
      if (packet nkro r).1 = ep then (u.endpoint ep).box.step (.send (packet nkro r).2)
      else (u.endpoint ep).box := by
  obtain ⟨⟨rest, hmouse, hrest⟩, hnrko⟩ := hu
  cases r with
  | keyboard raw =>
    cases nkro with
    | false =>
      refine ⟨⟨⟨rest, hmouse, hrest⟩, hnrko⟩, fun ep => ?_⟩
      cases ep with
      | ep1 => exact put_box u.ep1 raw.toList 8 (by simp [keyboardReportSize])
      | ep2 => rfl
    | true =>
      obtain ⟨y, ys, hys⟩ := List.exists_cons_of_length_eq_add_one hnrko
      have hlen : ys.length = raw.toList.length := by
        rw [hys, List.length_cons] at hnrko
        rw [Vector.length_toList]
        exact Nat.succ.inj hnrko
      have hset : u.nrkoReport.set 0 0x80 = 0x80 :: ys := by rw [hys]; rfl
      have hput := put_tail_box u.ep2 0x80 ys raw.toList hlen
      have hcopy := memcpy_tail 0x80 ys raw.toList hlen
      rw [← hset, Vector.length_toList] at hput hcopy
      refine ⟨⟨⟨rest, hmouse, hrest⟩, ?_⟩, fun ep => ?_⟩
      · refine (congrArg List.length hcopy).trans ?_
        rw [List.length_cons, Vector.length_toList]
      · cases ep with
        | ep1 => rfl
        | ep2 => exact hput
  | mouse report =>
    have hlen : rest.length = (UsbState.mouseBytes report).length := hrest
    have hput := put_tail_box u.ep2 reportIdMouse rest (UsbState.mouseBytes report) hlen
    have hcopy := memcpy_tail reportIdMouse rest (UsbState.mouseBytes report) hlen
    rw [← hmouse] at hput hcopy
    refine ⟨⟨⟨UsbState.mouseBytes report, hcopy, rfl⟩, hnrko⟩, fun ep => ?_⟩
    cases ep with
    | ep1 => rfl
    | ep2 => exact hput
  | system usage =>
    refine ⟨⟨⟨rest, hmouse, hrest⟩, hnrko⟩, fun ep => ?_⟩
    cases ep with
    | ep1 => rfl
    | ep2 => exact put_usage_box u.ep2 reportIdSystem usage
  | consumer usage =>
    refine ⟨⟨⟨rest, hmouse, hrest⟩, hnrko⟩, fun ep => ?_⟩
    cases ep with
    | ep1 => rfl
    | ep2 => exact put_usage_box u.ep2 reportIdConsumer usage

/-- Every step leaves the buffers with the size of their packets. -/
theorem apply_buffers (u : UsbState) (s : Step) (hu : Buffers u) : Buffers (s.apply u) := by
  cases s with
  | send nkro report => exact (send_spec u hu nkro report).1
  | poll ep => cases ep <;> exact ⟨hu.mouse, hu.nrko⟩

/-- A step is an operation of the mailbox it concerns. -/
theorem apply_box (ep : EndpointId) (u : UsbState) (s : Step) (hu : Buffers u) :
    ((s.apply u).endpoint ep).box =
      (mailboxOp ep s).elim (u.endpoint ep).box (u.endpoint ep).box.step := by
  cases s with
  | send nkro report =>
    rw [Step.apply, (send_spec u hu nkro report).2 ep, mailboxOp]
    split <;> rfl
  | poll ep' =>
    cases ep' with
    | ep1 =>
      cases ep with
      | ep1 => exact poll_box u.ep1
      | ep2 => rfl
    | ep2 =>
      cases ep with
      | ep1 => rfl
      | ep2 => exact poll_box u.ep2

/-- **The host gets the packets that are fetched before the next one is
put in**, on each endpoint, in order and once each. -/
theorem host_receives (ep : EndpointId) (steps : List Step) :
    ((runUsb steps).endpoint ep).received =
        Mailbox.survivors (steps.filterMap (mailboxOp ep)) ∧
      ((runUsb steps).endpoint ep).received.Sublist (sentTo ep steps) := by
  have hinit : Buffers {} := ⟨⟨[0, 0, 0, 0, 0], rfl, rfl⟩, rfl⟩
  have hempty : (({} : UsbState).endpoint ep).box = {} := by cases ep <;> rfl
  have hrun := Mailbox.run_project (fun u : UsbState => (u.endpoint ep).box) (mailboxOp ep)
    apply_buffers (apply_box ep) steps {} hinit
  rw [hempty] at hrun
  have hgot : ((runUsb steps).endpoint ep).received =
      Mailbox.survivors (steps.filterMap (mailboxOp ep)) :=
    (congrArg Mailbox.Box.got hrun).trans (Mailbox.run_survivors _)
  refine ⟨hgot, ?_⟩
  rw [hgot]
  exact Mailbox.survivors_sublist _

/-- A volume key pressed and released between two tokens: only the release
arrives. -/
theorem report_lost :
    let steps := [Step.send false (.consumer 0x00E9), .send false (.consumer 0), .poll .ep2,
      .poll .ep2, .poll .ep2]
    ((runUsb steps).endpoint .ep2).received ≠ sentTo .ep2 steps := by
  decide +kernel

end Ch583Kbd.Usb
