/-
Ch583Kbd.Usb.ControlRuns — sequences of SETUP packets and IN tokens on
endpoint 0.

A sequence is cut into transfers, each a SETUP packet with the tokens up to
the next one. Whether a transfer is correct depends on its request and its
number of tokens alone (`served_iff_regular`): what earlier transfers left
in `pDescr` and `SetupReqLen` comes in only with requests that are not
regular anyway. The state that has to be carried along is that a halted
endpoint has its toggle bit cleared (`Halts`).
-/
import Ch583Kbd.Usb.ControlClassRequests
import Ch583Kbd.Usb.ControlDescriptorRequests

namespace Ch583Kbd.Usb

open Ch583Kbd.Lib Ch583Kbd.Lib.Block

/-! ## Sequences -/

inductive ControlEvent where
  | setup (r : Request)
  | inToken
  deriving DecidableEq, Repr

def Transfer.events (t : Transfer) : List ControlEvent :=
  .setup t.request :: List.replicate t.tokens .inToken

/-- The tokens before the first SETUP packet, and the transfers. -/
def transfers : List ControlEvent → Nat × List Transfer
  | [] => (0, [])
  | .inToken :: es => ((transfers es).1 + 1, (transfers es).2)
  | .setup r :: es => (0, ⟨r, (transfers es).1⟩ :: (transfers es).2)

/-- Nothing is lost when a sequence is cut into transfers. -/
theorem events_transfers (es : List ControlEvent) :
    List.replicate (transfers es).1 .inToken ++ (transfers es).2.flatMap Transfer.events = es := by
  induction es with
  | nil => rfl
  | cons e es ih =>
    cases e with
    | setup r =>
      show (ControlEvent.setup r :: List.replicate (transfers es).1 .inToken) ++
        (transfers es).2.flatMap Transfer.events = _
      rw [List.cons_append, ih]
    | inToken =>
      show List.replicate ((transfers es).1 + 1) ControlEvent.inToken ++
        (transfers es).2.flatMap Transfer.events = _
      rw [List.replicate_succ, List.cons_append, ih]

/-- Every transfer of a sequence is correct, in the state that the ones
before it leave. -/
def AllServed : Ep0 → List Transfer → Prop
  | _, [] => True
  | s, t :: ts => ∃ s1 s2 packets, Serves s t s1 s2 packets ∧ AllServed s2 ts

/-- Every transfer of the sequence is correct, from power-up. -/
def ControlOk (es : List ControlEvent) : Prop :=
  ∃ s packets, Ep0.tokens (transfers es).1 {} = .ok (s, packets) ∧ AllServed s (transfers es).2

/-! ## One transfer -/

namespace Ep0

variable {s s' : Ep0} {r : Request} {n : Nat}

theorem standardCode_getDescriptor {c : Byte} (h : StandardCode.ofByte c = some .getDescriptor) :
    c = 0x06 := by
  revert c
  decide

/-- A reply of one byte is served when it is cut to the length asked for. -/
theorem served_answerOne (hk : r.kind = .standard) {x : Byte} {k : StandardCode}
    (hc : StandardCode.ofByte r.bRequest = some k) (hne : k ≠ .getDescriptor ∧ k ≠ .setFeature)
    (hstd : (s.received r).standardRequest r = .ok ((s.received r).answerOne x, false))
    (hreply : r.reply s = some [x]) : Served s ⟨r, n⟩ := by
  have h6 : r.bRequest ≠ 0x06 := by
    intro h
    rw [h] at hc
    exact hne.1 (Option.some.inj hc).symm
  have h3 : r.bRequest ≠ 0x03 := by
    intro h
    rw [h] at hc
    exact hne.2 (Option.some.inj hc).symm
  rw [served_reply hk hstd h6 h3 ⟨rfl, rfl⟩ hreply (by simp)]
  intro _
  right
  exact answerOne_firstPacket (s.received r) x

theorem received_config (s : Ep0) (r : Request) : (s.received r).devConfig = s.devConfig := by
  rw [received]

/-- **A standard request is served exactly when it is regular.** -/
theorem served_standard (hs : Halts s) (hk : r.kind = .standard) :
    Served s ⟨r, n⟩ ↔ Transfer.Regular ⟨r, n⟩ := by
  unfold Transfer.Regular
  simp only [hk]
  cases hc : StandardCode.ofByte r.bRequest with
  | none =>
    have hreply : r.reply s = none := by
      unfold Request.reply
      simp [hk, hc]
    rw [served_plain hk (by simp [hc]) hreply]
    simp [refused, hc]
  | some k =>
    have hreply := reply_standard (s := s) hk hc
    cases k with
    | getDescriptor => exact served_descriptor hk (standardCode_getDescriptor hc)
    | getStatus => exact served_getStatus hs hk hc
    | getConfiguration =>
      refine iff_of_true (served_answerOne hk hc (by decide) (x := s.devConfig) ?_ hreply) trivial
      unfold standardRequest
      rw [hc]
      dsimp only
      rw [received_config]
    | getInterface =>
      refine iff_of_true (served_answerOne hk hc (by decide) (x := 0x00) ?_ hreply) trivial
      unfold standardRequest
      rw [hc]
    | clearFeature =>
      rw [served_plain hk (by simp [hc]) hreply]
      simp [refused, hc]
    | setFeature =>
      rw [served_plain hk (by simp [hc]) hreply]
      simp [refused, hc]
    | _ =>
      rw [served_plain hk (by simp [hc]) hreply]
      simp [refused, hc]

/-- **Whether a transfer is correct does not depend on the ones before it.** -/
theorem served_iff_regular (hs : Halts s) (t : Transfer) : Served s t ↔ t.Regular := by
  obtain ⟨r, n⟩ := t
  cases hk : r.kind with
  | vendor => exact served_vendor hk
  | usbClass => exact served_class hk
  | standard => exact served_standard hs hk

/-! ## The halted endpoints -/

theorem stall_of_res (c : Byte) (h h' : Half) (res : Byte) (hres : res = h.idle ∨ res = h.stall) :
    (c &&& ~~~(h.tog ||| h.mask) ||| res) &&& h'.mask = h'.stall →
      (c &&& h'.mask = h'.stall → c &&& h'.tog = 0) →
      (c &&& ~~~(h.tog ||| h.mask) ||| res) &&& h'.tog = 0 := by
  rcases hres with rfl | rfl
  all_goals
    revert c
    cases h <;> cases h' <;> decide +kernel

/-- Writing a half keeps a stalled half with a clear toggle bit. -/
theorem setHalf_halts (hs : Halts s) (e : Fin 3) (h : Half) {res : Byte}
    (hres : res = h.idle ∨ res = h.stall) : Halts (s.setHalf e h res) := by
  intro e' h'
  unfold setHalf
  by_cases he : e' = e
  · subst he
    simp only [Function.update_self]
    exact fun hstall => stall_of_res _ h h' res hres hstall (hs e' h')
  · simp only [Function.update_of_ne he]
    exact hs e' h'

/-- The halted halves depend on the control bytes only. -/
theorem halts_congr (h : s'.epCtrl = s.epCtrl) (hs : Halts s) : Halts s' := by
  intro e half
  rw [h]
  exact hs e half

theorem classRequest_epCtrl (s : Ep0) (r : Request) :
    (s.classRequest r).1.epCtrl = s.epCtrl := by
  unfold classRequest
  cases ClassCode.ofByte r.bRequest with
  | none => rfl
  | some k => cases k <;> simp [answer]

/-- `CLEAR_FEATURE` keeps a stalled half with a clear toggle bit. -/
theorem clearFeature_halts (hs : Halts s) (r : Request) : Halts (s.clearFeature r).1 := by
  unfold clearFeature
  cases r.recipient with
  | endpoint =>
    dsimp only
    cases endpointHalf (r.wIndex &&& 0xFF).toNat with
    | none => exact hs
    | some eh => exact setHalf_halts hs eh.1 eh.2 (Or.inl rfl)
  | device =>
    dsimp only
    split <;> exact hs
  | _ => exact hs

/-- `SET_FEATURE` keeps a stalled half with a clear toggle bit. -/
theorem setFeature_halts (hs : Halts s) (r : Request) : Halts (s.setFeature r).1 := by
  unfold setFeature
  cases r.recipient with
  | endpoint =>
    dsimp only
    cases endpointHalf r.wIndex.toNat with
    | none => exact hs
    | some eh => exact setHalf_halts hs eh.1 eh.2 (Or.inr rfl)
  | device =>
    dsimp only
    split <;> exact hs
  | _ => exact hs

theorem getDescriptor_epCtrl {q : Ep0 × Bool} (h : s.getDescriptor r = .ok q) :
    q.1.epCtrl = s.epCtrl := by
  rw [getDescriptor_eq] at h
  obtain ⟨s1, hcopy, rfl⟩ := map_ok h
  obtain ⟨data, -, hs1⟩ := copyDescr_inv hcopy
  rw [hs1]
  rfl

theorem getStatus_epCtrl (s : Ep0) (r : Request) : (s.getStatus r).epCtrl = s.epCtrl := by
  rw [getStatus]

theorem answerOne_epCtrl (s : Ep0) (b : Byte) : (s.answerOne b).epCtrl = s.epCtrl := by
  rw [answerOne, answer]

/-- No standard request leaves a stalled half with its toggle bit set. -/
theorem standard_halts {q : Ep0 × Bool} (hs : Halts s) (h : s.standardRequest r = .ok q) :
    Halts q.1 := by
  unfold standardRequest at h
  cases hc : StandardCode.ofByte r.bRequest with
  | none =>
    rw [hc] at h
    obtain rfl := Except.ok.inj h
    exact hs
  | some k =>
    rw [hc] at h
    cases k with
    | getDescriptor => exact halts_congr (getDescriptor_epCtrl h) hs
    | clearFeature =>
      obtain rfl := Except.ok.inj h
      exact clearFeature_halts hs r
    | setFeature =>
      obtain rfl := Except.ok.inj h
      exact setFeature_halts hs r
    | getStatus =>
      rw [← Except.ok.inj h]
      exact halts_congr (getStatus_epCtrl s r) hs
    | getConfiguration =>
      rw [← Except.ok.inj h]
      exact halts_congr (answerOne_epCtrl s s.devConfig) hs
    | getInterface =>
      rw [← Except.ok.inj h]
      exact halts_congr (answerOne_epCtrl s 0x00) hs
    | _ =>
      obtain rfl := Except.ok.inj h
      exact hs

/-- No request leaves a halted endpoint with its toggle bit set. -/
theorem handle_halts {q : Ep0 × Bool} (hs : Halts s) (h : s.handleRequest r = .ok q) :
    Halts q.1 := by
  cases hk : r.kind with
  | vendor =>
    rw [handle_vendor hk] at h
    obtain rfl := Except.ok.inj h
    exact hs
  | usbClass =>
    rw [handle_class hk] at h
    obtain rfl := Except.ok.inj h
    exact halts_congr (classRequest_epCtrl s r) hs
  | standard =>
    rw [handle_standard hk] at h
    exact standard_halts hs h

/-- No transfer leaves a stalled half with its toggle bit set. -/
theorem serves_halts {t : Transfer} {s1 s2 : Ep0} {packets : List (List Byte)} (hs : Halts s)
    (h : Serves s t s1 s2 packets) : Halts s2 := by
  have hsetup := h.setup
  rw [setup_eq] at hsetup
  obtain ⟨q, hq, rfl⟩ := map_ok hsetup
  have hhandled := handle_halts (halts_congr (received_epCtrl s t.request) hs) hq
  have hfinish := (finish_frame q.1 t.request q.2).2.2.1
  exact halts_congr ((tokens_frame _ h.tokens).2.trans hfinish) hhandled

end Ep0

/-! ## Every sequence -/

/-- **A sequence of transfers is served exactly when each is regular**, by
induction over it. -/
theorem allServed_iff (ts : List Transfer) : ∀ {s : Ep0}, s.Halts →
    (AllServed s ts ↔ ∀ t ∈ ts, t.Regular) := by
  induction ts with
  | nil => exact fun _ => iff_of_true trivial nofun
  | cons t ts ih =>
    intro s hs
    rw [List.forall_mem_cons, ← Ep0.served_iff_regular hs t]
    constructor
    · rintro ⟨s1, s2, packets, hserves, hrest⟩
      exact ⟨⟨s1, s2, packets, hserves⟩, (ih (Ep0.serves_halts hs hserves)).mp hrest⟩
    · rintro ⟨⟨s1, s2, packets, hserves⟩, hrest⟩
      exact ⟨s1, s2, packets, hserves, (ih (Ep0.serves_halts hs hserves)).mpr hrest⟩

/-- At power-up no half is stalled. -/
theorem init_halts : Ep0.Halts {} := by
  intro e h _
  cases h
  · show (uepRResAck ||| uepTResNak ||| rbUepAutoTog) &&& Half.rx.tog = 0
    decide
  · show (uepRResAck ||| uepTResNak ||| rbUepAutoTog) &&& Half.tx.tog = 0
    decide

theorem init_not_acks : ¬ Ep0.Acks {} := Ep0.not_acks_nak

/-- **A sequence is answered correctly exactly if all its transfers are
regular.** -/
theorem controlOk_iff (es : List ControlEvent) :
    ControlOk es ↔ ∀ t ∈ (transfers es).2, t.Regular := by
  rw [← allServed_iff _ init_halts]
  have hidle := Ep0.tokens_not init_not_acks (transfers es).1
  constructor
  · rintro ⟨s, packets, htokens, hall⟩
    obtain ⟨rfl, -⟩ := Prod.mk.inj (Except.ok.inj (hidle.symm.trans htokens))
    exact hall
  · intro hall
    exact ⟨{}, [], hidle, hall⟩

/-- The string with index 0, for up to 255 bytes. -/
def languageRequest : Request where
  bRequestType := 0x80
  bRequest := 0x06
  wValue := 0x0300
  wIndex := 0x0000
  wLength := 0x00FF

/-- The host asks for the language codes and gets the serial number. -/
theorem language_codes_lost : ¬ ControlOk [.setup languageRequest, .inToken] ∧
    ((({} : Ep0).setup languageRequest).toOption.map Ep0.loaded) =
      some usbSerialNumberStringDescriptor := by
  constructor
  · rintro ⟨s, packets, htokens, s1, s2, ps, hserves, -⟩
    obtain ⟨rfl, -⟩ := Prod.mk.inj (Except.ok.inj htokens)
    have hregular := (Ep0.served_iff_regular init_halts _).mp ⟨s1, s2, ps, hserves⟩
    have hzero : (0x00FF : BitVec 16) = 0 := hregular
    exact absurd hzero (by decide)
  · decide +kernel

end Ch583Kbd.Usb
