/-
Ch583Kbd.Usb.DeviceSteps — endpoint 0 and the endpoints 1 to 3 in one
device, with everything that writes their control registers.

The requests of `Usb.ControlTransfer` and the handlers of `Usb.Endpoint`,
`Usb.OutPackets` and `Usb.CommandEndpoint` each have the registers in the
state that they work on; a `UsbDevice` carries the proof that these are the
same registers. A token is handled only if the response in the register is
ACK, and the hardware toggles by itself before the handler does as long as
`RB_UEP_AUTO_TOG` is set.

For a register a step is one of two things (`step_written`): it leaves the
halted halves and their toggle bits alone, or it arms the IN half, halted
or not.
-/
import Ch583Kbd.Usb.CommandEndpoint
import Ch583Kbd.Usb.ControlTokens

namespace Ch583Kbd.Usb

open Ch583Kbd.Tmk Ch583Kbd.Lib Ch583Kbd.Lib.Block Ch583Kbd.Eeprom

/-! ## The device -/

/-- The control registers of the endpoints. -/
def endpointCtrl (usb : UsbState) (ep3 : Ep3) : Fin 3 → Byte
  | 0 => usb.ep1.ctrl
  | 1 => usb.ep2.ctrl
  | 2 => ep3.wire.ctrl

structure UsbDevice where
  ep0 : Ep0
  usb : UsbState
  ep3 : Ep3
  same : ep0.epCtrl = endpointCtrl usb ep3

/-- The endpoint of the reports with a register; endpoint 3 is none. -/
def reportEndpoint : Fin 3 → Option EndpointId
  | 0 => some .ep1
  | 1 => some .ep2
  | 2 => none

namespace Endpoint

def setCtrl (e : Endpoint) (c : Byte) : Endpoint := { e with ctrl := c }

/-- `RB_UEP_AUTO_TOG`. -/
def autoToggle (e : Endpoint) (h : Half) : Endpoint :=
  if e.ctrl &&& rbUepAutoTog = 0 then e else e.setCtrl (e.ctrl ^^^ h.tog)

def inToken (e : Endpoint) : Endpoint :=
  if e.ctrl &&& Half.tx.mask = uepTResAck then (e.autoToggle .tx).poll else e

/-- The packets of the host are answered with ACK. -/
def Accepts (e : Endpoint) : Prop := e.ctrl &&& Half.rx.mask = uepRResAck

instance decidableAccepts (e : Endpoint) : Decidable e.Accepts :=
  inferInstanceAs (Decidable (_ = _))

def outToken (e : Endpoint) (togOk : Bool) (p : OutPacket) : Endpoint :=
  if e.Accepts then (if togOk then e.autoToggle .rx else e).outHandler togOk p else e

end Endpoint

/-- `RB_UIF_BUS_RST`. -/
def Ep0.busReset (s : Ep0) : Ep0 :=
  { s with
    usbDevAd := 0
    ctrl := uepRResAck ||| uepTResNak
    epCtrl := fun _ => uepRResAck ||| uepTResNak }

inductive UsbEvent where
  | setup (r : Request)
  | controlIn
  | controlOut
  | busReset
  | inToken (e : Fin 3)
  | outToken (ep : EndpointId) (togOk : Bool) (p : OutPacket)
  /-- A packet on endpoint 3; `reports` is what `clear_keyboard` sends if
  the command calls it. -/
  | command (togOk : Bool) (p : OutPacket) (stack : Vector Byte 64)
      (reports : List (Bool × HostReport))
  /-- `send_keyboard`, `send_mouse`, `send_system`, `send_consumer`. -/
  | send (nkro : Bool) (report : HostReport)
  | hidSend (stack : Vector Byte 64) (data : List Byte)

def UsbState.sendAll (u : UsbState) (reports : List (Bool × HostReport)) : UsbState :=
  reports.foldl (fun u x => u.send x.1 x.2) u

namespace UsbDevice

/-- After `USB_DeviceInit`. -/
def init (d : Device) : UsbDevice where
  ep0 := {}
  usb := { ep1 := { ctrl := uepRResAck ||| uepTResNak ||| rbUepAutoTog }
           ep2 := { ctrl := uepRResAck ||| uepTResNak ||| rbUepAutoTog } }
  ep3 := { wire := { ctrl := uepRResAck ||| uepTResNak ||| rbUepAutoTog }, device := d }
  same := by
    funext e
    match e with
    | 0 | 1 | 2 => rfl

def ctrl (d : UsbDevice) (e : Fin 3) : Byte := d.ep0.epCtrl e

/-- Endpoint 0 has changed, and with it the registers. -/
def withEp0 (d : UsbDevice) (s : Ep0) : UsbDevice where
  ep0 := s
  usb := { d.usb with
    ep1 := d.usb.ep1.setCtrl s.uep1Ctrl
    ep2 := d.usb.ep2.setCtrl s.uep2Ctrl }
  ep3 := { d.ep3 with wire := d.ep3.wire.setCtrl s.uep3Ctrl }
  same := by
    funext e
    match e with
    | 0 | 1 | 2 => rfl

/-- The device with new states of endpoints 1 to 3, whose control bytes endpoint
0 also sees. -/
def withEndpoints (d : UsbDevice) (usb : UsbState) (ep3 : Ep3) : UsbDevice where
  ep0 := { d.ep0 with epCtrl := endpointCtrl usb ep3 }
  usb := usb
  ep3 := ep3
  same := rfl

def inToken (d : UsbDevice) : Fin 3 → UsbDevice
  | 0 => d.withEndpoints { d.usb with ep1 := d.usb.ep1.inToken } d.ep3
  | 1 => d.withEndpoints { d.usb with ep2 := d.usb.ep2.inToken } d.ep3
  | 2 => d.withEndpoints d.usb { d.ep3 with wire := d.ep3.wire.inToken }

def outToken (d : UsbDevice) (togOk : Bool) (p : OutPacket) : EndpointId → UsbDevice
  | .ep1 => d.withEndpoints { d.usb with ep1 := d.usb.ep1.outToken togOk p } d.ep3
  | .ep2 => d.withEndpoints { d.usb with ep2 := d.usb.ep2.outToken togOk p } d.ep3

variable (C : PageFlash.Cell (0xFF : Byte)) (img : Image)

/-- An OUT token on endpoint 3. -/
def command (d : UsbDevice) (togOk : Bool) (p : OutPacket) (stack : Vector Byte 64)
    (reports : List (Bool × HostReport)) : Except Fault UsbDevice :=
  if d.ep3.wire.Accepts then do
    let ep3 := if togOk then { d.ep3 with wire := d.ep3.wire.autoToggle .rx } else d.ep3
    let (ep3, h) ← ep3.outHandler C img togOk p stack
    return d.withEndpoints (if h.cleared then d.usb.sendAll reports else d.usb) ep3
  else .ok d

def step (d : UsbDevice) : UsbEvent → Except Fault UsbDevice
  | .setup r => (d.ep0.setup r).map d.withEp0
  | .controlIn => d.ep0.inToken.map fun x => d.withEp0 x.1
  | .controlOut => .ok d
  | .busReset => .ok (d.withEp0 d.ep0.busReset)
  | .inToken e => .ok (d.inToken e)
  | .outToken ep togOk p => .ok (d.outToken togOk p ep)
  | .command togOk p stack reports => d.command C img togOk p stack reports
  | .send nkro report => .ok (d.withEndpoints (d.usb.send nkro report) d.ep3)
  | .hidSend stack data => .ok (d.withEndpoints d.usb (d.ep3.hidSend stack data))

end UsbDevice

/-- The step calls `DevEPx_IN_Deal` of the endpoint. -/
def UsbEvent.Arms (d : UsbDevice) (e : Fin 3) : UsbEvent → Prop
  | .send nkro report => reportEndpoint e = some (packet nkro report).1
  | .hidSend _ _ => reportEndpoint e = none
  | .outToken ep togOk _ => reportEndpoint e = some ep ∧ (d.usb.endpoint ep).Accepts ∧ togOk = true
  | .command togOk p _ reports =>
    let b := receive d.ep3.outBuf p
    d.ep3.wire.Accepts ∧ togOk = true ∧ bufByte b 0 = 0x3F ∧
      (reportEndpoint e = none ∧ BufInBounds b ∧ ¬ BufSilent b ∨
        HidCommand.ofByte (bufByte b 1) = some .enterDfu ∧ (bufByte b 2).toNat = 1 ∧
          ∃ x ∈ reports, reportEndpoint e = some (packet x.1 x.2).1)
  | _ => False

/-! ## Registers -/

/-- The half answers with STALL. -/
def StallsIn (h : Half) (c : Byte) : Prop := c &&& h.mask = h.stall

instance decidableStallsIn (h : Half) (c : Byte) : Decidable (StallsIn h c) :=
  inferInstanceAs (Decidable (_ = _))

/-- The halves that answer with STALL stay, with their toggle bits, and no
other starts to. -/
structure Calm (c c' : Byte) : Prop where
  stalls : ∀ h, StallsIn h c' ↔ StallsIn h c
  toggle : ∀ h, StallsIn h c → c' &&& Half.tog h = c &&& h.tog

/-- A step that arms the IN half if `arms`. -/
structure Written (arms : Prop) (c c' : Byte) : Prop where
  armed : arms → ¬ StallsIn .tx c'
  calm : (arms → ¬ StallsIn .tx c) → Calm c c'

theorem Calm.refl (c : Byte) : Calm c c := ⟨fun _ => Iff.rfl, fun _ _ => rfl⟩

theorem Calm.trans {c c' c'' : Byte} (h : Calm c c') (h' : Calm c' c'') : Calm c c'' := by
  constructor
  · intro half
    exact (h'.stalls half).trans (h.stalls half)
  · intro half hstall
    exact (h'.toggle half ((h.stalls half).mpr hstall)).trans (h.toggle half hstall)

theorem Calm.written {c c' : Byte} (h : Calm c c') : Written False c c' :=
  ⟨False.elim, fun _ => h⟩

theorem Written.congr {a a' : Prop} {c c' : Byte} (h : Written a c c') (haa : a' ↔ a) :
    Written a' c c' := ⟨fun ha => h.armed (haa.mp ha), fun hc => h.calm fun ha => hc (haa.mpr ha)⟩

theorem untouched (c : Byte) {arms : Prop} (h : ¬ arms) : Written arms c c :=
  (Calm.refl c).written.congr (iff_false_intro h)

theorem Written.comp {a a' : Prop} {c c' c'' : Byte} (h : Written a c c')
    (h' : Written a' c' c'') : Written (a ∨ a') c c'' := by
  constructor
  · rintro (ha | ha')
    · by_cases hsecond : a'
      · exact h'.armed hsecond
      · have hcalm := h'.calm fun hno => absurd hno hsecond
        exact fun hstall => h.armed ha ((hcalm.stalls .tx).mp hstall)
    · exact h'.armed ha'
  · intro hfree
    have hfirst := h.calm fun ha => hfree (.inl ha)
    exact hfirst.trans (h'.calm fun ha' hstall =>
      hfree (.inr ha') ((hfirst.stalls .tx).mp hstall))

/-- `DevEPx_IN_Deal` arms the IN half, whatever it answered before. -/
theorem written_arm (c : Byte) : Written True c (c &&& ~~~maskUepTRes ||| uepTResAck) := by
  have harmed : ∀ c, ¬ StallsIn .tx (c &&& ~~~maskUepTRes ||| uepTResAck) := by decide +kernel
  have hrx : ∀ c, StallsIn .rx (c &&& ~~~maskUepTRes ||| uepTResAck) ↔ StallsIn .rx c := by
    decide +kernel
  have htog : ∀ c, (c &&& ~~~maskUepTRes ||| uepTResAck) &&& Half.rx.tog = c &&& Half.rx.tog := by
    decide +kernel
  refine ⟨fun _ => harmed c, fun hfree => ⟨fun h => ?_, fun h hstall => ?_⟩⟩
  · cases h with
    | rx => exact hrx c
    | tx => exact iff_of_false (harmed c) (hfree trivial)
  · cases h with
    | rx => exact htog c
    | tx => exact absurd hstall (hfree trivial)

theorem calm_of_half {c c' : Byte} (h : ∀ half, (StallsIn half c' ↔ StallsIn half c) ∧
    (StallsIn half c → c' &&& Half.tog half = c &&& half.tog)) : Calm c c' :=
  ⟨fun half => (h half).1, fun half => (h half).2⟩

/-- Flipping the toggle bit of a half that acknowledges stalls nothing. -/
theorem calm_toggle {h : Half} {c : Byte} (hack : c &&& h.mask = 0) : Calm c (c ^^^ h.tog) := by
  refine calm_of_half fun half => ?_
  revert c
  cases h <;> cases half <;> decide +kernel

/-- The end of an IN handler answers with NAK and stalls nothing. -/
theorem calm_nak {c : Byte} (hack : c &&& Half.tx.mask = 0) :
    Calm c ((c ^^^ rbUepTTog) &&& ~~~maskUepTRes ||| uepTResNak) := by
  refine calm_of_half fun half => ?_
  revert c
  cases half <;> decide +kernel

/-! ## Endpoints -/

theorem Ep0.inToken_epCtrl {s s' : Ep0} {packet : Option (List Byte)}
    (h : s.inToken = .ok (s', packet)) : s'.epCtrl = s.epCtrl := by
  unfold Ep0.inToken at h
  split at h
  · obtain ⟨s1, hs1, heq⟩ := bind_ok h
    obtain ⟨rfl, -⟩ := Prod.mk.inj (Except.ok.inj heq)
    exact (inHandler_frame hs1).2
  · obtain ⟨rfl, -⟩ := Prod.mk.inj (Except.ok.inj h)
    rfl

namespace Endpoint

theorem autoToggle_ctrl (e : Endpoint) (h : Half) :
    (e.autoToggle h).ctrl = if e.ctrl &&& rbUepAutoTog = 0 then e.ctrl else e.ctrl ^^^ h.tog := by
  unfold autoToggle
  split <;> rfl

theorem autoToggle_ack (e : Endpoint) (h : Half) :
    (e.autoToggle h).ctrl &&& h.mask = e.ctrl &&& h.mask := by
  rw [autoToggle_ctrl]
  generalize e.ctrl = c
  revert c
  cases h <;> decide +kernel

/-- The automatic toggle stalls nothing in a half that acknowledges. -/
theorem autoToggle_calm {e : Endpoint} {h : Half} (hack : e.ctrl &&& h.mask = 0) :
    Calm e.ctrl (e.autoToggle h).ctrl := by
  rw [autoToggle_ctrl]
  split
  · exact Calm.refl _
  · exact calm_toggle hack

/-- An IN token stalls nothing and frees nothing. -/
theorem inToken_calm (e : Endpoint) : Calm e.ctrl e.inToken.ctrl := by
  unfold inToken
  split
  · next hack =>
    have hack' : (e.autoToggle .tx).ctrl &&& maskUepTRes = uepTResAck :=
      (autoToggle_ack e .tx).trans hack
    refine (autoToggle_calm hack).trans ?_
    unfold poll
    rw [if_pos hack']
    exact calm_nak hack'
  · exact Calm.refl _

/-- An OUT token that is accepted arms the IN half with its echo. -/
theorem outToken_written (e : Endpoint) (togOk : Bool) (p : OutPacket) :
    Written (e.Accepts ∧ togOk = true) e.ctrl (e.outToken togOk p).ctrl := by
  unfold outToken
  split
  · next hack =>
    cases togOk with
    | false => exact untouched e.ctrl (by simp)
    | true =>
      have hack' := (autoToggle_ack e .rx).trans hack
      have htoggles := (autoToggle_calm hack).trans (calm_toggle hack')
      exact (htoggles.written.comp (written_arm _)).congr (by simp [hack])
  · next hack => exact untouched e.ctrl (by simp [hack])

end Endpoint

/-- A report arms the IN half of its endpoint and no other. -/
theorem send_written (u : UsbState) (nkro : Bool) (r : HostReport) (ep : EndpointId) :
    Written ((packet nkro r).1 = ep) (u.endpoint ep).ctrl ((u.send nkro r).endpoint ep).ctrl := by
  by_cases hep : (packet nkro r).1 = ep
  · have hctrl : ((u.send nkro r).endpoint ep).ctrl =
        (u.endpoint ep).ctrl &&& ~~~maskUepTRes ||| uepTResAck := by
      subst hep
      cases r <;> first | rfl | (cases nkro <;> rfl)
    rw [hctrl]
    exact (written_arm _).congr (by simp [hep])
  · have hctrl : ((u.send nkro r).endpoint ep).ctrl = (u.endpoint ep).ctrl := by
      cases r <;> cases nkro <;> cases ep <;> first | rfl | exact absurd rfl hep
    rw [hctrl]
    exact untouched _ hep

/-- The reports of a step arm the IN halves of their endpoints. -/
theorem sendAll_written (reports : List (Bool × HostReport)) (u : UsbState) (ep : EndpointId) :
    Written (∃ x ∈ reports, (packet x.1 x.2).1 = ep) (u.endpoint ep).ctrl
      ((u.sendAll reports).endpoint ep).ctrl := by
  induction reports generalizing u with
  | nil => exact untouched _ (by simp)
  | cons x reports ih =>
    have hfirst := send_written u x.1 x.2 ep
    exact (hfirst.comp (ih (u.send x.1 x.2))).congr (by simp)

/-- A response arms the IN half of endpoint 3. -/
theorem hidSend_written (s : Ep3) (stack : Vector Byte 64) (data : List Byte) :
    Written True s.wire.ctrl (s.hidSend stack data).wire.ctrl := written_arm _

-- what is in the buffer is no matter for the registers
attribute [local irreducible] write

section Command

variable {C : PageFlash.Cell (0xFF : Byte)} {img : Image} {s s' : Ep3} {togOk : Bool}
  {p : OutPacket} {stack : Vector Byte 64} {h : Handled}

/-- The OUT handler of endpoint 3 arms its IN half when the command has a
response. -/
theorem outHandler_written (hack : s.wire.Accepts)
    (hok : s.outHandler C img togOk p stack = .ok (s', h)) :
    Written (h.reply ≠ none) s.wire.ctrl s'.wire.ctrl := by
  unfold Ep3.outHandler at hok
  cases togOk with
  | false =>
    obtain ⟨rfl, rfl⟩ := Prod.mk.inj (Except.ok.inj hok)
    exact untouched _ (by simp)
  | true =>
    obtain ⟨h1, -, heq⟩ := bind_ok hok
    obtain ⟨rfl, rfl⟩ := Prod.mk.inj (Except.ok.inj heq)
    have htoggle : Calm s.wire.ctrl ((s.received p).accepted h1.device).wire.ctrl :=
      calm_toggle (h := .rx) hack
    unfold Ep3.after
    cases h1.reply with
    | none => exact htoggle.written.congr (by simp)
    | some data => exact (htoggle.written.comp (hidSend_written _ stack data)).congr (by simp)

/-- What the handler says that it did, from the buffer. -/
theorem outHandler_handled (hlen : s.wire.inDataBuf.length = 64)
    (hok : s.outHandler C img togOk p stack = .ok (s', h)) :
    let b := receive s.outBuf p
    (h.reply ≠ none ↔ togOk = true ∧ bufByte b 0 = 0x3F ∧ BufInBounds b ∧ ¬ BufSilent b) ∧
      (h.cleared = true ↔ togOk = true ∧ bufByte b 0 = 0x3F ∧
        HidCommand.ofByte (bufByte b 1) = some .enterDfu ∧ (bufByte b 2).toNat = 1) := by
  unfold Ep3.outHandler at hok
  cases togOk with
  | false =>
    obtain ⟨rfl, rfl⟩ := Prod.mk.inj (Except.ok.inj hok)
    simp
  | true =>
    obtain ⟨h1, hdeal, heq⟩ := bind_ok hok
    obtain ⟨rfl, rfl⟩ := Prod.mk.inj (Except.ok.inj heq)
    have hanswers := Ep3.deal_answers (s := s.received p) hlen hdeal
    have hcleared := Ep3.deal_cleared hdeal
    exact ⟨hanswers.trans (by simp [Ep3.received]), hcleared.trans (by simp [Ep3.received])⟩

theorem outHandler_size (hsize : s.wire.inDataBuf.length = 64)
    (hok : s.outHandler C img togOk p stack = .ok (s', h)) :
    s'.wire.inDataBuf.length = 64 := by
  unfold Ep3.outHandler at hok
  cases togOk with
  | false =>
    obtain ⟨rfl, rfl⟩ := Prod.mk.inj (Except.ok.inj hok)
    exact hsize
  | true =>
    obtain ⟨h1, -, heq⟩ := bind_ok hok
    obtain ⟨rfl, rfl⟩ := Prod.mk.inj (Except.ok.inj heq)
    exact Ep3.after_size (s := s.received p) hsize stack h1

end Command

theorem autoToggle_size (e : Endpoint) (h : Half) :
    (e.autoToggle h).inDataBuf.length = e.inDataBuf.length := by
  unfold Endpoint.autoToggle
  split <;> rfl

/-! ## Steps -/

namespace UsbDevice

variable {C : PageFlash.Cell (0xFF : Byte)} {img : Image} {d d' : UsbDevice} {ev : UsbEvent}

theorem ctrl_eq (d : UsbDevice) (e : Fin 3) : d.ctrl e = endpointCtrl d.usb d.ep3 e :=
  congrFun d.same e

/-- A step that writes the three control bytes, endpoint by endpoint. -/
theorem withEndpoints_written (usb : UsbState) (ep3 : Ep3) (a : Fin 3 → Prop)
    (h1 : Written (a 0) d.usb.ep1.ctrl usb.ep1.ctrl)
    (h2 : Written (a 1) d.usb.ep2.ctrl usb.ep2.ctrl)
    (h3 : Written (a 2) d.ep3.wire.ctrl ep3.wire.ctrl) (e : Fin 3) :
    Written (a e) (d.ctrl e) ((d.withEndpoints usb ep3).ctrl e) := by
  rw [ctrl_eq]
  match e with
  | 0 => exact h1
  | 1 => exact h2
  | 2 => exact h3

theorem reportEndpoint_zero {ep : EndpointId} : reportEndpoint 0 = some ep ↔ ep = .ep1 :=
  Option.some_inj.trans eq_comm

theorem reportEndpoint_one {ep : EndpointId} : reportEndpoint 1 = some ep ↔ ep = .ep2 :=
  Option.some_inj.trans eq_comm

theorem reportEndpoint_eq_none {e : Fin 3} : reportEndpoint e = none ↔ e = 2 := by
  revert e
  decide

/-- An OUT token that is accepted arms the IN half of its own endpoint. -/
theorem outToken_written (togOk : Bool) (p : OutPacket) (ep : EndpointId) (e : Fin 3) :
    Written (UsbEvent.Arms d e (.outToken ep togOk p)) (d.ctrl e)
      ((d.outToken togOk p ep).ctrl e) := by
  have hnone : ∀ c e, reportEndpoint e ≠ some ep →
      Written (UsbEvent.Arms d e (.outToken ep togOk p)) c c :=
    fun c e hne => untouched c fun h => hne h.1
  cases ep with
  | ep1 =>
    refine withEndpoints_written { d.usb with ep1 := d.usb.ep1.outToken togOk p } d.ep3
      (fun e => UsbEvent.Arms d e (.outToken .ep1 togOk p)) ?_ (hnone _ 1 (by decide))
      (hnone _ 2 (by decide)) e
    exact (Endpoint.outToken_written d.usb.ep1 togOk p).congr (and_iff_right rfl)
  | ep2 =>
    refine withEndpoints_written { d.usb with ep2 := d.usb.ep2.outToken togOk p } d.ep3
      (fun e => UsbEvent.Arms d e (.outToken .ep2 togOk p)) (hnone _ 0 (by decide)) ?_
      (hnone _ 2 (by decide)) e
    exact (Endpoint.outToken_written d.usb.ep2 togOk p).congr (and_iff_right rfl)

/-- An IN token arms no half. -/
theorem inToken_written (e' e : Fin 3) : Written False (d.ctrl e) ((d.inToken e').ctrl e) := by
  have hnone : ∀ c, Written False c c := fun c => (Calm.refl c).written
  match e' with
  | 0 =>
    exact withEndpoints_written { d.usb with ep1 := d.usb.ep1.inToken } d.ep3 (fun _ => False)
      (Endpoint.inToken_calm _).written (hnone _) (hnone _) e
  | 1 =>
    exact withEndpoints_written { d.usb with ep2 := d.usb.ep2.inToken } d.ep3 (fun _ => False)
      (hnone _) (Endpoint.inToken_calm _).written (hnone _) e
  | 2 =>
    exact withEndpoints_written d.usb { d.ep3 with wire := d.ep3.wire.inToken } (fun _ => False)
      (hnone _) (hnone _) (Endpoint.inToken_calm _).written e

/-- A report arms the IN half of its own endpoint of the device. -/
theorem send_written (nkro : Bool) (r : HostReport) (e : Fin 3) :
    Written (reportEndpoint e = some (packet nkro r).1) (d.ctrl e)
      ((d.withEndpoints (d.usb.send nkro r) d.ep3).ctrl e) := by
  refine withEndpoints_written _ _ (fun e => reportEndpoint e = some (packet nkro r).1) ?_ ?_
    (untouched _ nofun) e
  · exact (Usb.send_written d.usb nkro r .ep1).congr reportEndpoint_zero
  · exact (Usb.send_written d.usb nkro r .ep2).congr reportEndpoint_one

/-- What a command on endpoint 3 arms, from what its handler says. -/
theorem command_arms (hack : d.ep3.wire.Accepts) {togOk : Bool} {p : OutPacket}
    (stack : Vector Byte 64) (reports : List (Bool × HostReport)) {h : Handled}
    (hreply : h.reply ≠ none ↔ togOk = true ∧ bufByte (receive d.ep3.outBuf p) 0 = 0x3F ∧
      BufInBounds (receive d.ep3.outBuf p) ∧ ¬ BufSilent (receive d.ep3.outBuf p))
    (hcleared : h.cleared = true ↔ togOk = true ∧ bufByte (receive d.ep3.outBuf p) 0 = 0x3F ∧
      HidCommand.ofByte (bufByte (receive d.ep3.outBuf p) 1) = some .enterDfu ∧
      (bufByte (receive d.ep3.outBuf p) 2).toNat = 1) (e : Fin 3) :
    UsbEvent.Arms d e (.command togOk p stack reports) ↔ reportEndpoint e = none ∧ h.reply ≠ none ∨
      h.cleared = true ∧ ∃ x ∈ reports, reportEndpoint e = some (packet x.1 x.2).1 := by
  rw [hreply, hcleared]
  constructor
  · rintro ⟨-, htog, hbyte, ⟨he, hanswer⟩ | ⟨hdfu, hlen, hreports⟩⟩
    · exact .inl ⟨he, htog, hbyte, hanswer⟩
    · exact .inr ⟨⟨htog, hbyte, hdfu, hlen⟩, hreports⟩
  · rintro (⟨he, htog, hbyte, hanswer⟩ | ⟨⟨htog, hbyte, hdfu, hlen⟩, hreports⟩)
    · exact ⟨hack, htog, hbyte, .inl ⟨he, hanswer⟩⟩
    · exact ⟨hack, htog, hbyte, .inr ⟨hdfu, hlen, hreports⟩⟩

/-- A command arms the halves of its response and of the reports it causes. -/
theorem command_written (hsize : d.ep3.wire.inDataBuf.length = 64) {togOk : Bool} {p : OutPacket}
    {stack : Vector Byte 64} {reports : List (Bool × HostReport)}
    (hok : d.command C img togOk p stack reports = .ok d') (e : Fin 3) :
    Written (UsbEvent.Arms d e (.command togOk p stack reports)) (d.ctrl e) (d'.ctrl e) := by
  unfold command at hok
  split at hok
  · next hack =>
    obtain ⟨⟨ep3, h⟩, hout, heq⟩ := bind_ok hok
    obtain rfl := Except.ok.inj heq
    -- the endpoint after the hardware has toggled
    obtain ⟨ep3', hstart, hbuf, hack', hsize', hcalm⟩ : ∃ ep3' : Ep3,
        ep3'.outHandler C img togOk p stack = .ok (ep3, h) ∧ ep3'.outBuf = d.ep3.outBuf ∧
          ep3'.wire.Accepts ∧ ep3'.wire.inDataBuf.length = 64 ∧
            Calm d.ep3.wire.ctrl ep3'.wire.ctrl := by
      refine ⟨_, hout, ?_⟩
      cases togOk with
      | false => exact ⟨rfl, hack, hsize, Calm.refl _⟩
      | true =>
        exact ⟨rfl, (Endpoint.autoToggle_ack _ .rx).trans hack,
          (autoToggle_size _ .rx).trans hsize, Endpoint.autoToggle_calm hack⟩
    obtain ⟨hreply, hcleared⟩ := outHandler_handled hsize' hstart
    rw [hbuf] at hreply hcleared
    have harms := command_arms hack stack reports hreply hcleared
    have hsend : ∀ ep, Written (h.cleared = true ∧ ∃ x ∈ reports, (packet x.1 x.2).1 = ep)
        (d.usb.endpoint ep).ctrl
        ((if h.cleared then d.usb.sendAll reports else d.usb).endpoint ep).ctrl := by
      intro ep
      split
      · next hc => exact (sendAll_written reports d.usb ep).congr (and_iff_right hc)
      · next hc => exact untouched _ fun hand => hc hand.1
    refine withEndpoints_written _ _ (fun e => UsbEvent.Arms d e _) ?_ ?_ ?_ e
    · exact (hsend .ep1).congr ((harms 0).trans (by
        simp [reportEndpoint_zero, reportEndpoint_eq_none]))
    · exact (hsend .ep2).congr ((harms 1).trans (by
        simp [reportEndpoint_one, reportEndpoint_eq_none]))
    · exact (hcalm.written.comp (outHandler_written hack' hstart)).congr
        ((harms 2).trans (by
          have hnone : reportEndpoint 2 = none := rfl
          simp [hnone]))
  · next hack =>
    obtain rfl := Except.ok.inj hok
    exact untouched _ fun h => hack h.1

/-- **What a step does to a register**, a request and a bus reset apart. -/
theorem step_written (hsize : d.ep3.wire.inDataBuf.length = 64)
    (hok : d.step C img ev = .ok d') (hsetup : ∀ r, ev ≠ .setup r) (hreset : ev ≠ .busReset)
    (e : Fin 3) : Written (ev.Arms d e) (d.ctrl e) (d'.ctrl e) := by
  cases ev with
  | setup r => exact absurd rfl (hsetup r)
  | busReset => exact absurd rfl hreset
  | controlIn =>
    obtain ⟨⟨s, packet⟩, htoken, rfl⟩ := map_ok hok
    have hctrl : (d.withEp0 s).ctrl e = d.ctrl e := congrFun (Ep0.inToken_epCtrl htoken) e
    rw [hctrl]
    exact untouched _ id
  | controlOut =>
    obtain rfl := Except.ok.inj hok
    exact untouched _ id
  | inToken e' =>
    obtain rfl := Except.ok.inj hok
    exact inToken_written e' e
  | outToken ep togOk p =>
    obtain rfl := Except.ok.inj hok
    exact outToken_written togOk p ep e
  | command togOk p stack reports => exact command_written hsize hok e
  | send nkro report =>
    obtain rfl := Except.ok.inj hok
    exact send_written nkro report e
  | hidSend stack data =>
    obtain rfl := Except.ok.inj hok
    refine withEndpoints_written _ _ (fun e => reportEndpoint e = none) (untouched _ nofun)
      (untouched _ nofun) ?_ e
    exact (hidSend_written d.ep3 stack data).congr (iff_true_intro rfl)

/-- A step that arms an endpoint does not fail. -/
theorem step_of_arms (C : PageFlash.Cell (0xFF : Byte)) (img : Image)
    (hsize : d.ep3.wire.inDataBuf.length = 64) {e : Fin 3}
    (h : ev.Arms d e) : ∃ d', d.step C img ev = .ok d' := by
  cases ev with
  | command togOk p stack reports =>
    obtain ⟨hack, rfl, hbyte, harm⟩ := h
    have hbounds : BufInBounds (receive d.ep3.outBuf p) := by
      rcases harm with ⟨-, hbounds, -⟩ | ⟨hdfu, -⟩
      · exact hbounds
      · intro c hc
        obtain rfl := Option.some.inj (hdfu.symm.trans hc)
        exact trivial
    let ep3 : Ep3 := { d.ep3 with wire := d.ep3.wire.autoToggle .rx }
    have hsize' : ep3.wire.inDataBuf.length = 64 := (autoToggle_size _ .rx).trans hsize
    obtain ⟨h, hdeal⟩ := (Ep3.deal_returns_iff C img (s := ep3.received p) hbyte hsize').mpr hbounds
    show ∃ d', d.command C img true p stack reports = .ok d'
    unfold command
    rw [if_pos hack]
    exact ⟨_, congrArg (· >>= _) (Ep3.outHandler_of_deal stack hdeal)⟩
  | send nkro report => exact ⟨_, rfl⟩
  | hidSend stack data => exact ⟨_, rfl⟩
  | outToken ep togOk p => exact ⟨_, rfl⟩
  | _ => exact absurd h id

/-- Every step leaves the size of endpoint 3's IN buffer. -/
theorem step_size (hsize : d.ep3.wire.inDataBuf.length = 64) (hok : d.step C img ev = .ok d') :
    d'.ep3.wire.inDataBuf.length = 64 := by
  cases ev with
  | setup r =>
    obtain ⟨s, -, rfl⟩ := map_ok hok
    exact hsize
  | controlIn =>
    obtain ⟨x, -, rfl⟩ := map_ok hok
    exact hsize
  | inToken e =>
    obtain rfl := Except.ok.inj hok
    match e with
    | 0 | 1 => exact hsize
    | 2 =>
      show d.ep3.wire.inToken.inDataBuf.length = 64
      unfold Endpoint.inToken
      split
      · rw [poll_inBuf, autoToggle_size]
        exact hsize
      · exact hsize
  | outToken ep togOk p =>
    obtain rfl := Except.ok.inj hok
    cases ep <;> exact hsize
  | command togOk p stack reports =>
    replace hok : d.command C img togOk p stack reports = .ok d' := hok
    unfold command at hok
    split at hok
    · obtain ⟨⟨ep3, h⟩, hout, heq⟩ := bind_ok hok
      obtain rfl := Except.ok.inj heq
      refine outHandler_size ?_ hout
      split
      · exact (autoToggle_size _ .rx).trans hsize
      · exact hsize
    · obtain rfl := Except.ok.inj hok
      exact hsize
  | hidSend stack data =>
    obtain rfl := Except.ok.inj hok
    exact put_inBuf (e := d.ep3.wire) hsize (by simp) (by decide)
  | _ =>
    obtain rfl := Except.ok.inj hok
    exact hsize

end UsbDevice

end Ch583Kbd.Usb
