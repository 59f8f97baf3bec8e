/-
Ch583Kbd.Usb.EndpointHalt — which endpoints are halted, and what the device
keeps and reports of it.

The device has no flag for a halted endpoint: `SET_FEATURE` writes STALL to
the response field of the control register, and `GET_STATUS` reads the
field back, together with the toggle bit. A `HaltRun` carries beside the
device which halves the host has halted since the last bus reset. The
registers agree with that (`Agrees`) until a report, an echo or a response
is put on an IN endpoint that is halted: `DevEPx_IN_Deal` writes ACK over
the STALL. `GET_STATUS` compares the whole of `wIndex` where
`CLEAR_FEATURE` takes its low byte.
-/
import Ch583Kbd.Lib.Trace
import Ch583Kbd.Usb.ControlRuns
import Ch583Kbd.Usb.DeviceSteps

namespace Ch583Kbd.Usb

open Ch583Kbd.Tmk Ch583Kbd.Lib Ch583Kbd.Lib.Block Ch583Kbd.Eeprom

/-! ## What the host asks for -/

/-- A standard request to an endpoint. -/
def Request.isEndpoint (r : Request) (c : StandardCode) : Bool :=
  r.kind = .standard ∧ StandardCode.ofByte r.bRequest = some c ∧ r.recipient = .endpoint

/-- The half that a request halts. -/
def Request.haltsHalf (r : Request) : Option (Fin 3 × Half) :=
  if r.isEndpoint .setFeature then endpointHalf r.wIndex.toNat else none

/-- The half that a request is to free. The number of an endpoint is the low
byte of `wIndex`. -/
def Request.freesHalf (r : Request) : Option (Fin 3 × Half) :=
  if r.isEndpoint .clearFeature then endpointHalf (r.wIndex &&& 0xFF).toNat else none

/-- The half that a request asks about; it takes at least one byte. -/
def Request.asksHalf (r : Request) : Option (Fin 3 × Half) :=
  if r.isEndpoint .getStatus ∧ r.deviceToHost = true ∧ r.wLength ≠ 0 then
    endpointHalf (r.wIndex &&& 0xFF).toNat
  else none

/-- The halves that are halted after a step. -/
def haltedAfter (halted : Fin 3 → Half → Bool) : UsbEvent → Fin 3 → Half → Bool
  | .setup r => fun e h =>
    if r.haltsHalf = some (e, h) then true
    else if r.freesHalf = some (e, h) then false
    else halted e h
  | .busReset => fun _ _ => false
  | _ => halted

structure HaltRun where
  device : UsbDevice
  halted : Fin 3 → Half → Bool

def HaltRun.step (C : PageFlash.Cell (0xFF : Byte)) (img : Image) (s : HaltRun)
    (ev : UsbEvent) : Except Fault HaltRun :=
  (s.device.step C img ev).map fun d => ⟨d, haltedAfter s.halted ev⟩

/-- The first byte that an IN token gets after a SETUP packet. -/
def Ep0.firstByte (s : Ep0) (r : Request) : Option Byte :=
  (s.setup r >>= Ep0.inToken).toOption.bind fun x => x.2.bind List.head?

/-- After the step the halted endpoints answer with STALL, and if it asks
for the status of one, the answer is 1 exactly if it is halted. -/
structure HaltKept (C : PageFlash.Cell (0xFF : Byte)) (img : Image) (s : HaltRun)
    (ev : UsbEvent) : Prop where
  sticky : ∀ s', s.step C img ev = .ok s' → ∀ e h, s'.halted e h = true →
    StallsIn h (s'.device.ctrl e)
  reported : ∀ r e h, ev = .setup r → r.asksHalf = some (e, h) →
    (s.device.ep0.firstByte r = some 1 ↔ s.halted e h = true)

/-- The step arms no halted endpoint and does not ask for the status of one
with a number beyond a byte. -/
structure RespectsHalt (s : HaltRun) (ev : UsbEvent) : Prop where
  arms : ∀ e, ev.Arms s.device e → s.halted e .tx = false
  index : ∀ r e h, ev = .setup r → r.asksHalf = some (e, h) → s.halted e h = true →
    r.wIndex.toNat < 256

/-! ## Requests -/

theorem isEndpoint_inv {r : Request} {c : StandardCode} (h : r.isEndpoint c = true) :
    r.kind = .standard ∧ StandardCode.ofByte r.bRequest = some c ∧ r.recipient = .endpoint :=
  of_decide_eq_true h

/-- A whole `wIndex` is the number of an endpoint only when its high byte is
zero. -/
theorem endpointHalf_index (w : BitVec 16) : endpointHalf w.toNat =
    if w.toNat < 256 then endpointHalf (w &&& 0xFF).toNat else none := by
  have hlow : (w &&& 0xFF).toNat = w.toNat % 256 := by
    rw [BitVec.toNat_and]
    exact Nat.and_two_pow_sub_one_eq_mod w.toNat 8
  split
  · next h => rw [hlow, Nat.mod_eq_of_lt h]
  · next h =>
    unfold endpointHalf
    split <;> first | omega | rfl

namespace Ep0

variable {s s' : Ep0} {r : Request} {e : Fin 3} {h : Half}

/-- A request that is handled by writing one half. -/
theorem setup_setHalf {res : Byte}
    (hhandle : (s.received r).handleRequest r = .ok ((s.received r).setHalf e h res, false))
    (hok : s.setup r = .ok s') : s'.epCtrl = (s.setHalf e h res).epCtrl := by
  rw [setup_of_handle hhandle] at hok
  obtain rfl := Except.ok.inj hok
  rw [(finish_frame _ r false).2.2.1]
  unfold setHalf
  dsimp only
  rw [received_epCtrl]

/-- `SET_FEATURE` for an endpoint that there is stalls that half. -/
theorem setup_halts (hr : r.haltsHalf = some (e, h)) (hok : s.setup r = .ok s') :
    s'.epCtrl = (s.setHalf e h h.stall).epCtrl := by
  unfold Request.haltsHalf at hr
  split at hr
  · next hep =>
    obtain ⟨hkind, hcode, hrec⟩ := isEndpoint_inv hep
    have hfeature : (s.received r).setFeature r =
        ((s.received r).setHalf e h h.stall, false) := by
      unfold setFeature
      rw [hrec]
      dsimp only
      rw [hr]
    have hhandle : (s.received r).handleRequest r =
        .ok ((s.received r).setHalf e h h.stall, false) := by
      rw [handle_standard hkind, standardRequest, hcode]
      exact congrArg Except.ok hfeature
    exact setup_setHalf hhandle hok
  · cases hr

/-- `CLEAR_FEATURE` for an endpoint that there is frees that half. -/
theorem setup_frees (hr : r.freesHalf = some (e, h)) (hok : s.setup r = .ok s') :
    s'.epCtrl = (s.setHalf e h h.idle).epCtrl := by
  unfold Request.freesHalf at hr
  split at hr
  · next hep =>
    obtain ⟨hkind, hcode, hrec⟩ := isEndpoint_inv hep
    have hfeature : (s.received r).clearFeature r =
        ((s.received r).setHalf e h h.idle, false) := by
      unfold clearFeature
      rw [hrec]
      dsimp only
      rw [hr]
    have hhandle : (s.received r).handleRequest r =
        .ok ((s.received r).setHalf e h h.idle, false) := by
      rw [handle_standard hkind, standardRequest, hcode]
      exact congrArg Except.ok hfeature
    exact setup_setHalf hhandle hok
  · cases hr

/-- A standard request that is no feature request for an endpoint. -/
theorem standard_epCtrl {q : Ep0 × Bool} (hhalts : r.haltsHalf = none)
    (hfrees : r.freesHalf = none) (hkind : r.kind = .standard)
    (hok : s.standardRequest r = .ok q) : q.1.epCtrl = s.epCtrl := by
  unfold standardRequest at hok
  cases hc : StandardCode.ofByte r.bRequest with
  | none =>
    rw [hc] at hok
    obtain rfl := Except.ok.inj hok
    rfl
  | some k =>
    rw [hc] at hok
    cases k with
    | getDescriptor => exact getDescriptor_epCtrl hok
    | clearFeature =>
      obtain rfl := Except.ok.inj hok
      unfold clearFeature
      cases hrec : r.recipient with
      | endpoint =>
        have hnone : endpointHalf (r.wIndex &&& 0xFF).toNat = none := by
          simpa [Request.freesHalf, Request.isEndpoint, hkind, hc, hrec] using hfrees
        dsimp only
        rw [hnone]
      | device =>
        dsimp only
        split <;> rfl
      | _ => rfl
    | setFeature =>
      obtain rfl := Except.ok.inj hok
      unfold setFeature
      cases hrec : r.recipient with
      | endpoint =>
        have hnone : endpointHalf r.wIndex.toNat = none := by
          simpa [Request.haltsHalf, Request.isEndpoint, hkind, hc, hrec] using hhalts
        dsimp only
        rw [hnone]
      | device =>
        dsimp only
        split <;> rfl
      | _ => rfl
    | getStatus =>
      rw [← Except.ok.inj hok]
      exact getStatus_epCtrl s r
    | getConfiguration =>
      rw [← Except.ok.inj hok]
      exact answerOne_epCtrl s s.devConfig
    | getInterface =>
      rw [← Except.ok.inj hok]
      exact answerOne_epCtrl s 0x00
    | _ =>
      obtain rfl := Except.ok.inj hok
      rfl

/-- No other request writes a half. -/
theorem setup_other (hhalts : r.haltsHalf = none) (hfrees : r.freesHalf = none)
    (hok : s.setup r = .ok s') : s'.epCtrl = s.epCtrl := by
  rw [setup_eq] at hok
  obtain ⟨q, hq, rfl⟩ := map_ok hok
  rw [(finish_frame q.1 r q.2).2.2.1]
  refine Eq.trans ?_ (received_epCtrl s r)
  cases hkind : r.kind with
  | vendor =>
    rw [handle_vendor hkind] at hq
    obtain rfl := Except.ok.inj hq
    rfl
  | usbClass =>
    rw [handle_class hkind] at hq
    obtain rfl := Except.ok.inj hq
    exact classRequest_epCtrl _ r
  | standard =>
    rw [handle_standard hkind] at hq
    exact standard_epCtrl hhalts hfrees hkind hq

/-- The halves that stall after one was written. -/
theorem setHalf_stalls (s : Ep0) (e : Fin 3) (h : Half) {res : Byte}
    (hres : res = h.idle ∨ res = h.stall) (e' : Fin 3) (h' : Half) :
    StallsIn h' ((s.setHalf e h res).epCtrl e') ↔
      if e' = e ∧ h' = h then res = h.stall else StallsIn h' (s.epCtrl e') := by
  have hbyte : ∀ c : Byte, StallsIn h' (c &&& ~~~(h.tog ||| h.mask) ||| res) ↔
      if h' = h then res = h.stall else StallsIn h' c := by
    rcases hres with rfl | rfl <;> cases h <;> cases h' <;> decide +kernel
  unfold setHalf
  by_cases he : e' = e
  · subst he
    simp only [Function.update_self, true_and]
    exact hbyte _
  · simp only [Function.update_of_ne he, he, false_and, if_false]

/-- The answer to a request that is handled at once. -/
theorem firstByte_of_handle {s1 : Ep0} (hhandle : (s.received r).handleRequest r = .ok (s1, false))
    (hcode : s1.setupReqCode ≠ 0x06) (hcode' : s1.setupReqCode ≠ 0x03) :
    s.firstByte r = (s1.finish r false).loaded.head? := by
  obtain ⟨s2, hs2, -⟩ := inHandler_once (s := s1.finish r false) hcode hcode'
  have htoken := inToken_acks (finish_acks s1 r)
  rw [hs2] at htoken
  unfold firstByte
  rw [setup_of_handle hhandle]
  show ((s1.finish r false).inToken).toOption.bind _ = _
  rw [htoken]
  rfl

/-- The status of an endpoint that there is says whether its half stalls. -/
theorem halted_iff (hr : r.asksHalf = some (e, h)) :
    r.halted s = true ↔ r.wIndex.toNat < 256 ∧ StallsIn h (s.epCtrl e) := by
  unfold Request.asksHalf at hr
  split at hr
  · unfold Request.halted
    rw [endpointHalf_index]
    by_cases hlow : r.wIndex.toNat < 256
    · rw [if_pos hlow, hr, and_iff_right hlow]
      exact decide_eq_true_iff
    · rw [if_neg hlow]
      exact iff_of_false Bool.false_ne_true fun hand => hlow hand.1
  · cases hr

/-- `GET_STATUS` for an endpoint answers whether its half stalls. -/
theorem firstByte_status (hs : Halts s) (hr : r.asksHalf = some (e, h)) :
    s.firstByte r = some 1 ↔ r.wIndex.toNat < 256 ∧ StallsIn h (s.epCtrl e) := by
  rw [← halted_iff hr]
  unfold Request.asksHalf at hr
  split at hr
  · next hcond =>
    obtain ⟨hep, hin, hlen⟩ := hcond
    obtain ⟨hkind, hcode, hrec⟩ := isEndpoint_inv hep
    have hhandle : (s.received r).handleRequest r = .ok ((s.received r).getStatus r, false) := by
      rw [handle_standard hkind, standardRequest, hcode]
    have hne : ∀ c, r.bRequest = c → StandardCode.ofByte c = some .getStatus := fun c hc =>
      hc ▸ hcode
    have hloaded : (((s.received r).getStatus r).finish r false).loaded =
        [(s.received r).statusByte r, 0x00].take r.wLength.toNat := by
      rw [finish_loaded, if_pos hin]
      exact getStatus_firstPacket (s.received r) r
    have hpos : r.wLength.toNat ≠ 0 := fun hzero => hlen (BitVec.eq_of_toNat_eq hzero)
    obtain ⟨k, hk⟩ := Nat.exists_eq_succ_of_ne_zero hpos
    have hs' : Halts (s.received r) := halts_congr (received_epCtrl s r) hs
    have hsame : r.halted (s.received r) = r.halted s := by
      unfold Request.halted
      rw [received_epCtrl]
    rw [firstByte_of_handle hhandle (fun hc => nomatch hne _ hc) (fun hc => nomatch hne _ hc),
      hloaded, hk, statusByte_endpoint hs' hrec, hsame]
    cases r.halted s <;> simp
  · cases hr

end Ep0

/-! ## The registers and what the host asked for -/

namespace HaltRun

open Ep0

variable {C : PageFlash.Cell (0xFF : Byte)} {img : Image} {s s' : HaltRun} {ev : UsbEvent}

/-- The halves that answer with STALL are those that are halted. -/
structure Agrees (s : HaltRun) : Prop where
  stalls : ∀ e h, StallsIn h (s.device.ctrl e) ↔ s.halted e h = true
  toggle : s.device.ep0.Halts
  size : s.device.ep3.wire.inDataBuf.length = 64

theorem halts_not_frees {r : Request} {eh : Fin 3 × Half} (h : r.haltsHalf = some eh) :
    r.freesHalf = none := by
  unfold Request.haltsHalf at h
  split at h
  · next hep =>
    have hcode := (isEndpoint_inv hep).2.1
    unfold Request.freesHalf
    rw [if_neg]
    intro hep'
    rw [(isEndpoint_inv hep').2.1] at hcode
    cases hcode
  · cases h

/-- A request that writes one half, as the host asked. -/
theorem agrees_setHalf (hs : s.Agrees) {r : Request} {s0 : Ep0} {e : Fin 3} {h : Half}
    {res : Byte} (hres : res = h.idle ∨ res = h.stall)
    (hctrl : s0.epCtrl = (s.device.ep0.setHalf e h res).epCtrl)
    (hafter : ∀ e' h', haltedAfter s.halted (.setup r) e' h' =
      if e' = e ∧ h' = h then decide (res = h.stall) else s.halted e' h') :
    Agrees ⟨s.device.withEp0 s0, haltedAfter s.halted (.setup r)⟩ := by
  refine ⟨?_, halts_congr hctrl (setHalf_halts hs.toggle e h hres), hs.size⟩
  intro e' h'
  show StallsIn h' (s0.epCtrl e') ↔ haltedAfter s.halted (.setup r) e' h' = true
  rw [hctrl, setHalf_stalls _ e h hres, hafter]
  split
  · exact decide_eq_true_iff.symm
  · exact hs.stalls e' h'

/-- A request keeps the halves that stall those that are halted. -/
theorem agrees_setup (hs : s.Agrees) {r : Request} {s0 : Ep0}
    (hok : s.device.ep0.setup r = .ok s0) :
    Agrees ⟨s.device.withEp0 s0, haltedAfter s.halted (.setup r)⟩ := by
  have hpair : ∀ {e e' : Fin 3} {h h' : Half}, some (e, h) = some (e', h') ↔ e' = e ∧ h' = h := by
    simp [eq_comm]
  cases hhalts : r.haltsHalf with
  | some eh =>
    obtain ⟨e, h⟩ := eh
    refine agrees_setHalf hs (.inr rfl) (setup_halts hhalts hok) fun e' h' => ?_
    simp only [haltedAfter, hhalts, halts_not_frees hhalts, hpair, reduceCtorEq, if_false,
      decide_true]
  | none =>
    cases hfrees : r.freesHalf with
    | some eh =>
      obtain ⟨e, h⟩ := eh
      have hidle : decide (h.idle = h.stall) = false := by cases h <;> decide
      refine agrees_setHalf hs (.inl rfl) (setup_frees hfrees hok) fun e' h' => ?_
      simp only [haltedAfter, hhalts, hfrees, hpair, reduceCtorEq, if_false, hidle]
    | none =>
      have hctrl := setup_other hhalts hfrees hok
      refine ⟨?_, halts_congr hctrl hs.toggle, hs.size⟩
      intro e h
      show StallsIn h (s0.epCtrl e) ↔ haltedAfter s.halted (.setup r) e h = true
      simp only [haltedAfter, hhalts, hfrees, reduceCtorEq, if_false]
      rw [hctrl]
      exact hs.stalls e h

/-- **A step that respects the halt keeps the halves that stall those that are
halted.** -/
theorem agrees_step (hs : s.Agrees) (hr : RespectsHalt s ev) (hok : s.step C img ev = .ok s') :
    s'.Agrees := by
  obtain ⟨d, hstep, rfl⟩ := map_ok hok
  have hsize := UsbDevice.step_size hs.size hstep
  by_cases hsetup : ∃ r, ev = .setup r
  · obtain ⟨r, rfl⟩ := hsetup
    obtain ⟨s0, hs0, rfl⟩ := map_ok hstep
    exact agrees_setup hs hs0
  · by_cases hreset : ev = .busReset
    · subst hreset
      obtain rfl := Except.ok.inj hstep
      refine ⟨?_, ?_, hsize⟩
      · intro e h
        refine iff_of_false ?_ Bool.false_ne_true
        show ¬ StallsIn h (uepRResAck ||| uepTResNak)
        cases h <;> decide
      · intro e h hstall
        replace hstall : StallsIn h (uepRResAck ||| uepTResNak) := hstall
        cases h <;> exact absurd hstall (by decide)
    · have hsame : haltedAfter s.halted ev = s.halted := by
        cases ev with
        | setup r => exact absurd ⟨r, rfl⟩ hsetup
        | busReset => exact absurd rfl hreset
        | _ => rfl
      have hcalm : ∀ e, Calm (s.device.ctrl e) (d.ctrl e) := by
        intro e
        refine (UsbDevice.step_written hs.size hstep (fun r heq => hsetup ⟨r, heq⟩) hreset
          e).calm fun harms => ?_
        rw [hs.stalls, hr.arms e harms]
        exact Bool.false_ne_true
      refine ⟨?_, ?_, hsize⟩
      · intro e h
        rw [hsame]
        exact ((hcalm e).stalls h).trans (hs.stalls e h)
      · intro e h hstall
        have hstall' := ((hcalm e).stalls h).mp hstall
        exact ((hcalm e).toggle h hstall').trans (hs.toggle e h hstall')

/-- **A step keeps and reports what is halted exactly if it respects it.** -/
theorem haltKept_iff (hs : s.Agrees) : HaltKept C img s ev ↔ RespectsHalt s ev := by
  constructor
  · intro hkept
    constructor
    · intro e harms
      by_contra hhalted
      rw [Bool.not_eq_false] at hhalted
      obtain ⟨d, hstep⟩ := UsbDevice.step_of_arms C img hs.size harms
      have hsetup : ∀ r, ev ≠ .setup r := by
        rintro r rfl
        exact harms
      have hreset : ev ≠ .busReset := by
        rintro rfl
        exact harms
      have hsame : haltedAfter s.halted ev = s.halted := by
        cases ev <;> first | rfl | exact absurd rfl (hsetup _) | exact absurd rfl hreset
      have hwritten := UsbDevice.step_written hs.size hstep hsetup hreset e
      have hrun : s.step C img ev = .ok ⟨d, haltedAfter s.halted ev⟩ :=
        congrArg (Except.map _) hstep
      refine hwritten.armed harms (hkept.sticky _ hrun e .tx ?_)
      rw [hsame]
      exact hhalted
    · intro r e h hev hr hhalted
      exact ((firstByte_status hs.toggle hr).mp ((hkept.reported r e h hev hr).mpr hhalted)).1
  · intro hrespects
    constructor
    · intro s' hok e h hhalted
      exact ((agrees_step hs hrespects hok).stalls e h).mpr hhalted
    · intro r e h hev hr
      have hstalls : StallsIn h (s.device.ep0.epCtrl e) ↔ s.halted e h = true := hs.stalls e h
      rw [firstByte_status hs.toggle hr, hstalls]
      exact ⟨And.right, fun hhalted => ⟨hrespects.index r e h hev hr hhalted, hhalted⟩⟩

/-- **Every step of a run keeps the halt exactly when every step respects it.** -/
theorem run_kept_iff (evs : List UsbEvent) (hs : s.Agrees) :
    (∀ x ∈ attempts (HaltRun.step C img) evs s, HaltKept C img x.1 x.2) ↔
      ∀ x ∈ attempts (HaltRun.step C img) evs s, RespectsHalt x.1 x.2 :=
  attempts_forall_iff (fun _ _ hs => haltKept_iff hs)
    (fun _ _ _ hs hr hok => agrees_step hs hr hok) evs hs

/-- The device after `USB_DeviceInit`; nothing is halted. -/
def init (d : Device) : HaltRun := ⟨UsbDevice.init d, fun _ _ => false⟩

/-- At power-up no half stalls and none is halted. -/
theorem init_agrees (d : Device) : (init d).Agrees := by
  have hctrl : ∀ e, (init d).device.ctrl e = uepRResAck ||| uepTResNak ||| rbUepAutoTog :=
    fun _ => rfl
  refine ⟨?_, init_halts, rfl⟩
  intro e h
  rw [hctrl]
  exact iff_of_false (by cases h <;> decide) Bool.false_ne_true

end HaltRun

/-! ## Every run -/

/-- **In a run of the device every halt is kept and reported exactly if every
step respects it.** -/
theorem endpointHalt_iff (C : PageFlash.Cell (0xFF : Byte)) (img : Image) (d : Device)
    (evs : List UsbEvent) :
    (∀ x ∈ attempts (HaltRun.step C img) evs (.init d), HaltKept C img x.1 x.2) ↔
      ∀ x ∈ attempts (HaltRun.step C img) evs (.init d), RespectsHalt x.1 x.2 :=
  HaltRun.run_kept_iff evs (HaltRun.init_agrees d)

/-- `SET_FEATURE` for endpoint 0x81. -/
def haltRequest : Request where
  bRequestType := 0x02
  bRequest := 0x03
  wValue := 0x0000
  wIndex := 0x0081
  wLength := 0x0000

/-- The next keyboard report ends the halt of its endpoint. -/
theorem report_ends_halt :
    let report := HostReport.keyboard (Vector.replicate keyboardReportSize 0)
    ¬ ∀ x ∈ attempts (HaltRun.step clearBits ⟨fun _ _ => Action.no, fun _ => 0⟩)
        [.setup haltRequest, .send false report] (.init {}),
      HaltKept clearBits ⟨fun _ _ => Action.no, fun _ => 0⟩ x.1 x.2 := by
  intro report hkept
  rw [HaltRun.run_kept_iff _ (HaltRun.init_agrees {})] at hkept
  have hsend := hkept (⟨_, _⟩, .send false report) (List.mem_cons_of_mem _ List.mem_cons_self)
  exact absurd (hsend.arms 0 rfl) (by decide)

end Ch583Kbd.Usb
