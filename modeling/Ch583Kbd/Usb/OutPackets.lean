/-
Ch583Kbd.Usb.OutPackets — the OUT endpoints 1 and 2 beside the IN
endpoints of `Usb.Endpoint`.

`DevEP1_OUT_Deal` and `DevEP2_OUT_Deal` put the complement of what the host
sent into the IN buffer and arm it, as a report is. The log of a run has
one entry for each call of `DevEPx_IN_Deal`, with the step that made it;
`armings_eq` says what the entries are. A report of the keyboard is in them
for every send call, and the host's own bytes are for every packet that it
got accepted.
-/
import Ch583Kbd.Usb.Endpoint

namespace Ch583Kbd.Usb

open Ch583Kbd.Tmk Ch583Kbd.Lib

/-- A packet that fits into an OUT buffer. -/
structure OutPacket where
  bytes : List Byte
  fits : bytes.length ≤ 64
  deriving DecidableEq, Repr

/-- `for(i = 0; i < l; i++) pEPx_IN_DataBuf[i] = ~pEPx_OUT_DataBuf[i];` -/
def complementInto (inBuf out : List Byte) : Nat → List Byte
  | 0 => inBuf
  | l + 1 => (complementInto inBuf out l).set l (~~~(out[l]?.getD 0))

namespace Endpoint

/-- `DevEP1_OUT_Deal`, `DevEP2_OUT_Deal`. -/
def outDeal (e : Endpoint) (p : OutPacket) : Endpoint :=
  { e with inDataBuf := complementInto e.inDataBuf p.bytes p.bytes.length }.inDeal p.bytes.length

/-- The case `UIS_TOKEN_OUT` of `USB_DevTransProcess`; `togOk` is
`RB_UIS_TOG_OK`. -/
def outHandler (e : Endpoint) (togOk : Bool) (p : OutPacket) : Endpoint :=
  if togOk then { e with ctrl := e.ctrl ^^^ rbUepRTog }.outDeal p else e

/-- The packet that the endpoint holds. -/
def holds (e : Endpoint) : List Byte := e.inDataBuf.take e.tLen

end Endpoint

/-! ## Both directions -/

inductive WireStep where
  /-- A send call or an IN token. -/
  | own (s : Step)
  /-- An OUT packet of the host. -/
  | out (ep : EndpointId) (togOk : Bool) (p : OutPacket)
  deriving DecidableEq, Repr

def WireStep.apply (u : UsbState) : WireStep → UsbState
  | .own s => s.apply u
  | .out .ep1 togOk p => { u with ep1 := u.ep1.outHandler togOk p }
  | .out .ep2 togOk p => { u with ep2 := u.ep2.outHandler togOk p }

/-- A call of `DevEPx_IN_Deal`: the step that makes it, and the packet that
the endpoint holds then. -/
structure Arming where
  cause : WireStep
  packet : List Byte
  deriving DecidableEq, Repr

/-- The step calls `DevEPx_IN_Deal` of the endpoint. -/
def WireStep.arms (ep : EndpointId) : WireStep → Bool
  | .own (.send nkro r) => (packet nkro r).1 = ep
  | .own (.poll _) => false
  | .out ep' togOk _ => ep' = ep ∧ togOk = true

/-- The steps of a run that arm endpoint `ep`, with the packets they put on it. -/
def armings (ep : EndpointId) (u : UsbState) : List WireStep → List Arming
  | [] => []
  | w :: ws =>
    (if w.arms ep then [⟨w, ((w.apply u).endpoint ep).holds⟩] else []) ++ armings ep (w.apply u) ws

/-- What a step that arms an endpoint puts on it. -/
def WireStep.puts : WireStep → List Byte
  | .own (.send nkro r) => (packet nkro r).2
  | .own (.poll _) => []
  | .out _ _ p => p.bytes.map (~~~ ·)

/-! ## The log -/

/-- The IN buffers have 64 bytes. -/
structure WireBuffers (u : UsbState) : Prop extends Buffers u where
  inBuf : ∀ ep, (u.endpoint ep).inDataBuf.length = 64

@[simp] theorem complementInto_length (inBuf out : List Byte) (l : Nat) :
    (complementInto inBuf out l).length = inBuf.length := by
  induction l with
  | zero => rfl
  | succ l ih => rw [complementInto, List.length_set, ih]

/-- The loop leaves the complement of the first `l` bytes. -/
theorem take_complementInto {inBuf out : List Byte} :
    ∀ {l : Nat}, l ≤ inBuf.length → l ≤ out.length →
      (complementInto inBuf out l).take l = (out.take l).map (~~~ ·) := by
  intro l
  induction l with
  | zero => intro _ _; rfl
  | succ l ih =>
    intro hin hout
    have hlt : l < (complementInto inBuf out l).length := by
      rw [complementInto_length]
      omega
    have hout' : l < out.length := hout
    rw [complementInto, List.take_add_one, List.take_add_one, List.map_append,
      List.take_set_of_le (Nat.le_refl l), ih (by omega) (by omega), List.getElem?_set_self hlt,
      List.getElem?_eq_getElem hout']
    rfl

/-- An accepted packet is put into the mailbox as its complement. -/
theorem outDeal_holds (e : Endpoint) (p : OutPacket) (h : e.inDataBuf.length = 64) :
    (e.outDeal p).holds = p.bytes.map (~~~ ·) := by
  show (complementInto e.inDataBuf p.bytes p.bytes.length).take p.bytes.length = _
  rw [take_complementInto (by rw [h]; exact p.fits) (Nat.le_refl _), List.take_length]

theorem memcpy_length (dst src : List Byte) (len : Nat) (hsrc : len ≤ src.length)
    (hdst : len ≤ dst.length) : (memcpy dst 0 src len).length = dst.length := by
  simp [memcpy]
  omega

/-- A packet of up to 64 bytes leaves the size of its buffer. -/
theorem put_inBuf {e : Endpoint} {data : List Byte} {len : Nat} (h : e.inDataBuf.length = 64)
    (hdata : len ≤ data.length) (hlen : len ≤ 64) :
    (UsbState.put e data len).inDataBuf.length = 64 := by
  show (memcpy e.inDataBuf 0 data len).length = 64
  rw [memcpy_length _ _ _ hdata (by omega), h]

/-- A send call leaves the sizes of the IN buffers. -/
theorem send_inBuf (u : UsbState) (h : WireBuffers u) (nkro : Bool) (r : HostReport) :
    WireBuffers (u.send nkro r) := by
  have hafter := (send_spec u h.toBuffers nkro r).1
  obtain ⟨⟨rest, hmouse, hrest⟩, hnrko⟩ := hafter
  refine ⟨⟨⟨rest, hmouse, hrest⟩, hnrko⟩, ?_⟩
  intro ep
  cases r with
  | keyboard raw =>
    cases nkro with
    | false =>
      cases ep with
      | ep1 => exact put_inBuf (h.inBuf .ep1) (by simp [keyboardReportSize]) (by decide)
      | ep2 => exact h.inBuf .ep2
    | true =>
      cases ep with
      | ep1 => exact h.inBuf .ep1
      | ep2 => exact put_inBuf (h.inBuf .ep2) (Nat.le_of_eq hnrko.symm) (by decide)
  | mouse report =>
    cases ep with
    | ep1 => exact h.inBuf .ep1
    | ep2 =>
      have hlen : (u.send nkro (.mouse report)).mouseReport.length = 6 := by
        rw [hmouse, List.length_cons, hrest]
      exact put_inBuf (h.inBuf .ep2) (Nat.le_of_eq hlen.symm) (by decide)
  | system usage =>
    cases ep with
    | ep1 => exact h.inBuf .ep1
    | ep2 => exact put_inBuf (h.inBuf .ep2) (by simp) (by decide)
  | consumer usage =>
    cases ep with
    | ep1 => exact h.inBuf .ep1
    | ep2 => exact put_inBuf (h.inBuf .ep2) (by simp) (by decide)

theorem outHandler_inBuf (e : Endpoint) (togOk : Bool) (p : OutPacket) :
    (e.outHandler togOk p).inDataBuf.length = e.inDataBuf.length := by
  unfold Endpoint.outHandler
  split
  · exact complementInto_length _ _ _
  · rfl

theorem poll_inBuf (e : Endpoint) : e.poll.inDataBuf = e.inDataBuf := by
  unfold Endpoint.poll
  split <;> rfl

/-- Every step on the wire leaves the sizes of the IN buffers. -/
theorem wire_buffers (u : UsbState) (w : WireStep) (h : WireBuffers u) :
    WireBuffers (w.apply u) := by
  cases w with
  | own s =>
    cases s with
    | send nkro r => exact send_inBuf u h nkro r
    | poll ep' =>
      refine ⟨apply_buffers u (.poll ep') h.toBuffers, ?_⟩
      intro ep
      cases ep' <;> cases ep
      · exact (congrArg List.length (poll_inBuf u.ep1)).trans (h.inBuf .ep1)
      · exact h.inBuf .ep2
      · exact h.inBuf .ep1
      · exact (congrArg List.length (poll_inBuf u.ep2)).trans (h.inBuf .ep2)
  | out ep' togOk p =>
    cases ep' with
    | ep1 =>
      refine ⟨⟨h.mouse, h.nrko⟩, ?_⟩
      intro ep
      cases ep with
      | ep1 => exact (outHandler_inBuf u.ep1 togOk p).trans (h.inBuf .ep1)
      | ep2 => exact h.inBuf .ep2
    | ep2 =>
      refine ⟨⟨h.mouse, h.nrko⟩, ?_⟩
      intro ep
      cases ep with
      | ep1 => exact h.inBuf .ep1
      | ep2 => exact (outHandler_inBuf u.ep2 togOk p).trans (h.inBuf .ep2)

/-- An endpoint that waits with a letter holds it. -/
theorem holds_of_letter {e : Endpoint} {p : List Byte} (h : e.box.letter = some p) :
    e.holds = p := by
  unfold Endpoint.box at h
  dsimp only at h
  split at h
  · exact Option.some.inj h
  · cases h

/-- What a step that arms an endpoint leaves there. -/
theorem arms_holds (ep : EndpointId) (u : UsbState) (w : WireStep) (h : WireBuffers u)
    (harms : w.arms ep = true) : ((w.apply u).endpoint ep).holds = w.puts := by
  cases w with
  | own s =>
    cases s with
    | send nkro r =>
      have hep : (packet nkro r).1 = ep := of_decide_eq_true harms
      have hbox := (send_spec u h.toBuffers nkro r).2 ep
      rw [if_pos hep] at hbox
      apply holds_of_letter
      show ((u.send nkro r).endpoint ep).box.letter = _
      rw [hbox]
      rfl
    | poll ep' => cases harms
  | out ep' togOk p =>
    obtain ⟨rfl, rfl⟩ := of_decide_eq_true harms
    cases ep' with
    | ep1 => exact outDeal_holds _ p (h.inBuf .ep1)
    | ep2 => exact outDeal_holds _ p (h.inBuf .ep2)

/-- **The calls of `DevEPx_IN_Deal` in a run and what they arm.** -/
theorem armings_eq (ep : EndpointId) (steps : List WireStep) :
    ∀ u, WireBuffers u →
      armings ep u steps = (steps.filter (·.arms ep)).map fun w => ⟨w, w.puts⟩ := by
  induction steps with
  | nil => intro _ _; rfl
  | cons w ws ih =>
    intro u hu
    rw [armings, ih _ (wire_buffers u w hu)]
    by_cases harms : w.arms ep = true
    · rw [if_pos harms, arms_holds ep u w hu harms, List.filter_cons_of_pos harms]
      rfl
    · rw [if_neg harms, List.filter_cons_of_neg harms]
      rfl

/-! ## Integrity -/

/-- Every packet that a run arms on an endpoint is the report of a send call
in it, and none comes from the host. -/
structure InputIntegrity (ep : EndpointId) (steps : List WireStep) : Prop where
  report : ∀ a ∈ armings ep {} steps, ∃ nkro r,
    .own (.send nkro r) ∈ steps ∧ packet nkro r = (ep, a.packet)
  notHost : ∀ a ∈ armings ep {} steps, ∀ ep' togOk p, a.cause ≠ .out ep' togOk p

theorem init_wireBuffers : WireBuffers {} := by
  refine ⟨⟨⟨[0, 0, 0, 0, 0], rfl, rfl⟩, rfl⟩, ?_⟩
  intro ep
  cases ep <;> rfl

/-- A packet that is accepted is armed, complemented, on its own endpoint. -/
theorem out_armed {ep : EndpointId} {steps : List WireStep} {p : OutPacket}
    (hp : .out ep true p ∈ steps) :
    ⟨.out ep true p, p.bytes.map (~~~ ·)⟩ ∈ armings ep {} steps := by
  have harms : (WireStep.out ep true p).arms ep = true := decide_eq_true ⟨rfl, rfl⟩
  rw [armings_eq ep steps {} init_wireBuffers]
  exact List.mem_map.mpr ⟨_, List.mem_filter.mpr ⟨hp, harms⟩, rfl⟩

/-- **Input reports come from the send calls alone exactly if no packet of
the host is accepted on the endpoint.** -/
theorem inputIntegrity_iff (ep : EndpointId) (steps : List WireStep) :
    InputIntegrity ep steps ↔ ∀ p, .out ep true p ∉ steps := by
  constructor
  · intro h p hp
    exact h.notHost _ (out_armed hp) ep true p rfl
  · intro hnone
    have hlog := armings_eq ep steps {} init_wireBuffers
    have hsend : ∀ a ∈ armings ep {} steps, ∃ nkro r, .own (.send nkro r) ∈ steps ∧
        packet nkro r = (ep, a.packet) ∧ a.cause = .own (.send nkro r) := by
      intro a ha
      rw [hlog] at ha
      obtain ⟨w, hw, rfl⟩ := List.mem_map.mp ha
      obtain ⟨hmem, harms⟩ := List.mem_filter.mp hw
      cases w with
      | own s =>
        cases s with
        | send nkro r =>
          have hep : (packet nkro r).1 = ep := of_decide_eq_true harms
          exact ⟨nkro, r, hmem, Prod.ext hep rfl, rfl⟩
        | poll ep' => cases harms
      | out ep' togOk p =>
        obtain ⟨rfl, rfl⟩ := of_decide_eq_true harms
        exact absurd hmem (hnone p)
    constructor
    · intro a ha
      obtain ⟨nkro, r, hmem, hpacket, -⟩ := hsend a ha
      exact ⟨nkro, r, hmem, hpacket⟩
    · intro a ha ep' togOk p hcause
      obtain ⟨nkro, r, -, -, hown⟩ := hsend a ha
      rw [hcause] at hown
      cases hown

/-- The host turns on a LED: the keyboard answers one byte, 0xFD, where a
report is expected. -/
theorem led_report_echoed :
    let steps := [WireStep.out .ep1 true ⟨[0x02], by decide⟩, .own (.poll .ep1)]
    ¬ InputIntegrity .ep1 steps ∧
      ((steps.foldl WireStep.apply {}).endpoint .ep1).received = [[0xFD]] := by
  constructor
  · intro h
    exact h.notHost _ (out_armed (p := ⟨[0x02], by decide⟩) (by simp)) .ep1 true _ rfl
  · decide +kernel

end Ch583Kbd.Usb
