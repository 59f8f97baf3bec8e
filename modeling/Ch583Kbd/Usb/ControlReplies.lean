/-
Ch583Kbd.Usb.ControlReplies — what a control transfer has to answer, and
for which transfers it does.

`Request.descriptor` and `Request.reply` say what a request names. A
transfer is correct (`Serves`) if it is refused or its packets are a prefix
of the object, chunk by chunk, and if the handler reads no other
descriptor.
-/
import Ch583Kbd.Usb.ControlTokens

namespace Ch583Kbd.Usb

open Ch583Kbd.Lib Ch583Kbd.Lib.Block

/-! ## What a request names -/

/-- The descriptor that a request names. The keyboard has one device and one
configuration descriptor, whatever their index. -/
def Request.descriptor (r : Request) : Option Descriptor :=
  if r.kind = .standard ∧ r.bRequest = 0x06 then
    match (r.wValue >>> 8).toNat with
    | 0x01 => some .device
    | 0x02 => some .config
    | 0x22 =>
      match (r.wIndex &&& 0xFF).toNat with
      | 0 => some .report
      | 1 => some .report2
      | 2 => some .report3
      | _ => none
    | 0x03 =>
      match (r.wValue &&& 0xFF).toNat with
      | 0 => some .language
      | 1 => some .manufacturer
      | 2 => some .product
      | 3 => some .serialNumber
      | _ => none
    | _ => none
  else none

/-- The endpoint that a request names is halted. -/
def Request.halted (r : Request) (s : Ep0) : Bool :=
  match endpointHalf r.wIndex.toNat with
  | some (e, h) => s.epCtrl e &&& h.mask = h.stall
  | none => false

/-- The reply that a request names, by the state in which it arrives. -/
def Request.reply (r : Request) (s : Ep0) : Option (List Byte) :=
  match r.kind with
  | .vendor => none
  | .usbClass =>
    match ClassCode.ofByte r.bRequest with
    | some .getIdle => some [s.idleValue]
    | some .getProtocol => some [s.reportValue]
    | _ => none
  | .standard =>
    match StandardCode.ofByte r.bRequest with
    | some .getDescriptor => r.descriptor.map Descriptor.bytes
    | some .getConfiguration => some [s.devConfig]
    | some .getInterface => some [0x00]
    | some .getStatus =>
      match r.recipient with
      | .device => some [if s.usbSleepStatus ≠ 0 then 0x02 else 0x00, 0x00]
      | .interface => some [0x00, 0x00]
      | .endpoint => some [if r.halted s then 0x01 else 0x00, 0x00]
      | .other => none
    | _ => none

/-- A SETUP packet and the IN tokens up to the next one. -/
structure Transfer where
  request : Request
  tokens : Nat
  deriving DecidableEq, Repr

/-- The endpoint answers with STALL. -/
def Ep0.Stalled (s : Ep0) : Prop := s.ctrl &&& maskUepTRes = uepTResStall

/-- Every read of a `memcpy` from `pDescr` lies in the descriptor that the
request names. -/
def ReadsNamed (r : Request) (s : Ep0) : Prop :=
  ∀ x ∈ s.reads, x.len = 0 ∨ ∃ d, r.descriptor = some d ∧ DescrRead.Inside d x

/-- A transfer from `s`, by way of `s1` after the SETUP packet, ends in `s2`
and is correct. -/
structure Serves (s : Ep0) (t : Transfer) (s1 s2 : Ep0) (packets : List (List Byte)) : Prop where
  setup : s.setup t.request = .ok s1
  tokens : s1.tokens t.tokens = .ok (s2, packets)
  answer : t.request.deviceToHost = true → s1.Stalled ∨
    ∃ obj, t.request.reply s = some obj ∧
      packets.flatten = (obj.take t.request.wLength.toNat).take (64 * t.tokens) ∧
      ∀ p ∈ packets, p.length ≤ 64
  reads : ReadsNamed t.request s2

def Served (s : Ep0) (t : Transfer) : Prop := ∃ s1 s2 packets, Serves s t s1 s2 packets

/-! ## The transfers that are correct -/

/-- The feature requests that are answered with STALL. -/
def Request.featureRefused (r : Request) (index : Nat) : Bool :=
  match r.recipient with
  | .endpoint => (endpointHalf index).isNone
  | .device => false
  | _ => true

/-- A request for a descriptor: the string with index 0 and the report
descriptor of an interface from 3 on are answered from another object. From
host to device, the status stage reads on behind what the SETUP part
read. -/
def Transfer.RegularDescriptor (t : Transfer) : Prop :=
  match t.request.descriptor with
  | some .language => t.request.wLength = 0
  | some .serialNumber => True
  | some d =>
    let len := min t.request.wLength.toNat d.size
    t.request.deviceToHost = true ∨ min len 64 + min (64 * t.tokens) len ≤ d.size
  | none => (t.request.wValue >>> 8).toNat = 0x22 →
    t.request.deviceToHost = false ∧ t.request.wLength = 0

def Transfer.Regular (t : Transfer) : Prop :=
  let r := t.request
  match r.kind with
  | .vendor => r.deviceToHost = false ∧ (r.bRequest = 0x06 → r.wLength = 0 ∨ t.tokens = 0)
  | .usbClass => r.deviceToHost = true →
    match ClassCode.ofByte r.bRequest with
    | some .getIdle => r.wLength.toNat ≤ 1 ∨ t.tokens = 0
    | some .getProtocol => r.wLength = 0 ∨ t.tokens = 0 ∨ r.wLength = 1 ∧ t.tokens = 1
    | some _ => False
    | none => True
  | .standard =>
    match StandardCode.ofByte r.bRequest with
    | some .getDescriptor => t.RegularDescriptor
    | some .setAddress | some .setConfiguration | some .setInterface => r.deviceToHost = false
    | some .clearFeature => r.deviceToHost = true →
        r.featureRefused (r.wIndex &&& 0xFF).toNat = true
    | some .setFeature => r.deviceToHost = true → r.featureRefused r.wIndex.toNat = true
    | some .getStatus => r.deviceToHost = true →
      match r.recipient with
      | .interface => r.wLength = 0 ∨ t.tokens = 0
      | .other => False
      | _ => True
    | some .getConfiguration | some .getInterface | none => True

namespace Ep0

variable {s s' : Ep0} {r : Request} {n : Nat}

/-! ## The end of the SETUP part -/

/-- The SETUP handler handles the request and then arms endpoint 0. -/
theorem setup_eq (s : Ep0) (r : Request) :
    s.setup r = ((s.received r).handleRequest r).map fun q => q.1.finish r q.2 := by
  unfold setup
  cases (s.received r).handleRequest r <;> rfl

/-- A request that is refused leaves endpoint 0 stalled. -/
theorem finish_stalled (s : Ep0) (r : Request) : (s.finish r true).Stalled := by
  show (rbUepRTog ||| rbUepTTog ||| uepRResStall ||| uepTResStall) &&& maskUepTRes = uepTResStall
  decide

theorem stalled_not_acks (h : s.Stalled) : ¬ s.Acks := by
  unfold Stalled at h
  unfold Acks
  rw [h]
  decide

/-- A request that is accepted arms endpoint 0. -/
theorem finish_acks (s : Ep0) (r : Request) : (s.finish r false).Acks := by
  show (rbUepRTog ||| rbUepTTog ||| uepRResAck ||| uepTResAck) &&& maskUepTRes = uepTResAck
  decide

theorem finish_frame (s : Ep0) (r : Request) (err : Bool) :
    (s.finish r err).setupReqCode = s.setupReqCode ∧ (s.finish r err).reads = s.reads ∧
      (s.finish r err).epCtrl = s.epCtrl ∧ (s.finish r err).pDescr = s.pDescr := by
  cases err <;> exact ⟨rfl, rfl, rfl, rfl⟩

theorem finish_firstLen (s : Ep0) :
    (if devEp0Size < s.setupReqLen.toNat then devEp0Size else s.setupReqLen.toNat) =
      min s.setupReqLen.toNat 64 := by
  unfold devEp0Size
  split <;> omega

/-- The first packet is the start of the buffer, up to 64 bytes and what is left
of the request. -/
theorem finish_loaded (s : Ep0) (r : Request) : (s.finish r false).loaded =
    if r.deviceToHost then s.databuf.toList.take (min s.setupReqLen.toNat 64) else [] := by
  show s.databuf.toList.take (if r.deviceToHost then _ else 0) = _
  cases r.deviceToHost with
  | true => rw [if_pos rfl, if_pos rfl, finish_firstLen]
  | false => rfl

theorem finish_len (h : r.deviceToHost = true) : (s.finish r false).setupReqLen.toNat =
    s.setupReqLen.toNat - min s.setupReqLen.toNat 64 := by
  show (if r.deviceToHost then s.setupReqLen - BitVec.ofNat 16 _ else s.setupReqLen).toNat = _
  rw [if_pos h, finish_firstLen, toNat_sub_ofNat (by omega)]

theorem acks_not_stalled (h : s.Acks) : ¬ s.Stalled := fun hs => stalled_not_acks hs h

/-! ## Transfers by the way their SETUP part ends -/

/-- Once the handler's run is known, its answer and its reads decide. -/
theorem served_iff {s1 s2 : Ep0} {ps : List (List Byte)} (hsetup : s.setup r = .ok s1)
    (htokens : tokens n s1 = .ok (s2, ps)) : Served s ⟨r, n⟩ ↔
      (r.deviceToHost = true → s1.Stalled ∨ ∃ obj, r.reply s = some obj ∧
        ps.flatten = (obj.take r.wLength.toNat).take (64 * n) ∧ ∀ p ∈ ps, p.length ≤ 64) ∧
      ReadsNamed r s2 := by
  constructor
  · rintro ⟨s1', s2', ps', h⟩
    obtain rfl : s1 = s1' := Except.ok.inj (hsetup.symm.trans h.setup)
    obtain ⟨rfl, rfl⟩ := Prod.mk.inj (Except.ok.inj (htokens.symm.trans h.tokens))
    exact ⟨h.answer, h.reads⟩
  · rintro ⟨hanswer, hreads⟩
    exact ⟨s1, s2, ps, hsetup, htokens, hanswer, hreads⟩

theorem setup_of_handle {err : Bool} (h : (s.received r).handleRequest r = .ok (s', err)) :
    s.setup r = .ok (s'.finish r err) := by
  rw [setup_eq, h]
  rfl

/-- A request that is refused is served by its STALL. -/
theorem served_refused (h : (s.received r).handleRequest r = .ok (s', true))
    (hreads : ReadsNamed r s') : Served s ⟨r, n⟩ := by
  have hstalled := finish_stalled s' r
  have htokens := tokens_not (stalled_not_acks hstalled) n
  rw [served_iff (setup_of_handle h) htokens]
  constructor
  · intro _
    exact Or.inl hstalled
  · exact hreads

theorem readsNamed_nil (h : s.reads = []) : ReadsNamed r s := by
  intro x hx
  rw [h] at hx
  cases hx

/-- A request from host to device whose status stage reads nothing. -/
theorem served_out (hout : r.deviceToHost = false)
    (h : (s.received r).handleRequest r = .ok (s', false)) (hcode : s'.setupReqCode ≠ 0x06)
    (hreads : s'.reads = []) : Served s ⟨r, n⟩ := by
  have hacks := finish_acks s' r
  by_cases h3 : s'.setupReqCode = 0x03
  · rw [served_iff (setup_of_handle h) (tokens_again hacks h3 n), hout]
    exact ⟨nofun, readsNamed_nil hreads⟩
  · obtain ⟨s2, hs2, hr⟩ := tokens_once (n := n) hacks hcode h3
    rw [served_iff (setup_of_handle h) hs2, hout]
    exact ⟨nofun, readsNamed_nil (hr.trans hreads)⟩

/-- A request to the host for nothing that the keyboard has. -/
theorem not_served_unnamed (hin : r.deviceToHost = true) (hreply : r.reply s = none)
    (hok : ∀ q, (s.received r).handleRequest r = .ok q → q.2 = false) : ¬ Served s ⟨r, n⟩ := by
  rintro ⟨s1, s2, ps, h⟩
  have hsetup := h.setup
  rw [setup_eq] at hsetup
  obtain ⟨q, hq, rfl⟩ := map_ok hsetup
  rcases h.answer hin with hstalled | ⟨obj, hobj, -⟩
  · rw [hok q hq] at hstalled
    exact acks_not_stalled (finish_acks q.1 r) hstalled
  · rw [hreply] at hobj
    cases hobj

/-- What the first packet of a short reply is. -/
def firstPacket (s : Ep0) : List Byte := s.databuf.toList.take (min s.setupReqLen.toNat 64)

theorem firstPacket_length (s : Ep0) : s.firstPacket.length ≤ 64 :=
  Nat.le_trans (List.length_take_le _ _) (Nat.min_le_right _ _)

/-- The start of the buffer, for a reply of up to two bytes. -/
theorem take_two (v : Vector Byte 64) {k : Nat} (hk : k ≤ 2) :
    v.toList.take k = [v[0], v[1]].take k := by
  apply List.ext_getElem?
  intro i
  rw [List.getElem?_take, List.getElem?_take]
  by_cases hi : i < k
  · rw [if_pos hi, if_pos hi]
    have hcases : i = 0 ∨ i = 1 := by omega
    rcases hcases with rfl | rfl <;> simp
  · rw [if_neg hi, if_neg hi]

theorem take_one (v : Vector Byte 64) {k : Nat} (hk : k ≤ 1) :
    v.toList.take k = [v[0]].take k := by
  rw [take_two v (by omega), show [v[0], v[1]] = [v[0]] ++ [v[1]] from rfl,
    List.take_append_of_le_length (by simpa using hk)]

theorem take_short {obj : List Byte} {w : Nat} (hobj : obj.length ≤ 64) (hn : n ≠ 0) :
    (obj.take w).take (64 * n) = obj.take w := by
  apply List.take_of_length_le
  have hw := List.length_take_le w obj
  have hle : (obj.take w).length ≤ obj.length := List.length_take_le' w obj
  omega

/-- A reply of one packet is served when it is cut to the length asked for. -/
theorem served_short_iff {obj : List Byte} (hin : r.deviceToHost = true)
    (h : (s.received r).handleRequest r = .ok (s', false)) (hcode : s'.setupReqCode ≠ 0x06)
    (hcode' : s'.setupReqCode ≠ 0x03) (hreads : s'.reads = []) (hreply : r.reply s = some obj)
    (hobj : obj.length ≤ 64) :
    Served s ⟨r, n⟩ ↔ n = 0 ∨ s'.firstPacket = obj.take r.wLength.toNat := by
  have hacks := finish_acks s' r
  obtain ⟨s2, hs2, hr⟩ := tokens_once (n := n) hacks hcode hcode'
  have hloaded : (s'.finish r false).loaded = s'.firstPacket := by
    rw [finish_loaded, if_pos hin]
    rfl
  rw [served_iff (setup_of_handle h) hs2, hloaded]
  constructor
  · rintro ⟨hanswer, -⟩
    by_cases hn : n = 0
    · exact Or.inl hn
    · right
      rcases hanswer hin with hstalled | ⟨obj', hobj', hflat, -⟩
      · exact absurd hstalled (acks_not_stalled hacks)
      · obtain rfl : obj = obj' := Option.some.inj (hreply.symm.trans hobj')
        rw [if_neg hn, take_short hobj hn, List.flatten_singleton] at hflat
        exact hflat
  · intro hpacket
    refine ⟨fun _ => Or.inr ⟨obj, hreply, ?_⟩, readsNamed_nil (hr.trans hreads)⟩
    by_cases hn : n = 0
    · subst hn
      exact ⟨by simp, nofun⟩
    · rw [if_neg hn, take_short hobj hn, List.flatten_singleton]
      refine ⟨hpacket.resolve_left hn, ?_⟩
      intro p hp
      rw [List.mem_singleton.mp hp]
      exact firstPacket_length s'

/-- A reply that is sent again for every token is served when no token comes, or
the copies together are the reply. -/
theorem served_again_iff {obj : List Byte} (hin : r.deviceToHost = true)
    (h : (s.received r).handleRequest r = .ok (s', false)) (hcode : s'.setupReqCode = 0x03)
    (hreads : s'.reads = []) (hreply : r.reply s = some obj) (hobj : obj.length ≤ 64) :
    Served s ⟨r, n⟩ ↔
      n = 0 ∨ (List.replicate n s'.firstPacket).flatten = obj.take r.wLength.toNat := by
  have hacks := finish_acks s' r
  have hloaded : (s'.finish r false).loaded = s'.firstPacket := by
    rw [finish_loaded, if_pos hin]
    rfl
  rw [served_iff (setup_of_handle h) (tokens_again hacks hcode n), hloaded]
  constructor
  · rintro ⟨hanswer, -⟩
    by_cases hn : n = 0
    · exact Or.inl hn
    · right
      rcases hanswer hin with hstalled | ⟨obj', hobj', hflat, -⟩
      · exact absurd hstalled (acks_not_stalled hacks)
      · obtain rfl : obj = obj' := Option.some.inj (hreply.symm.trans hobj')
        rw [take_short hobj hn] at hflat
        exact hflat
  · intro hpackets
    refine ⟨fun _ => Or.inr ⟨obj, hreply, ?_, ?_⟩, readsNamed_nil hreads⟩
    · by_cases hn : n = 0
      · subst hn
        simp
      · rw [take_short hobj hn]
        exact hpackets.resolve_left hn
    · intro p hp
      rw [List.eq_of_mem_replicate hp]
      exact firstPacket_length s'

@[simp] theorem received_code (s : Ep0) (r : Request) :
    (s.received r).setupReqCode = r.bRequest := rfl

@[simp] theorem received_len (s : Ep0) (r : Request) :
    (s.received r).setupReqLen = r.wLength := rfl

@[simp] theorem received_idle (s : Ep0) (r : Request) :
    (s.received r).idleValue = s.idleValue := by rw [received]

@[simp] theorem received_report (s : Ep0) (r : Request) :
    (s.received r).reportValue = s.reportValue := by rw [received]

@[simp] theorem received_reads (s : Ep0) (r : Request) : (s.received r).reads = [] := rfl

end Ep0

end Ch583Kbd.Usb
