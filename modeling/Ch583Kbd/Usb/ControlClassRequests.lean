/-
Ch583Kbd.Usb.ControlClassRequests — vendor and class requests.

No vendor request is refused. To the host each is answered with what the
buffer holds; to the device one with code 6 makes the status stage read
behind `pDescr`. `GET_IDLE` and `GET_PROTOCOL` do not limit the length to
their one byte, and the IN handler takes the code of `GET_PROTOCOL` for
`USB_SET_FEATURE`.
-/
import Ch583Kbd.Usb.ControlReplies

namespace Ch583Kbd.Usb

open Ch583Kbd.Lib Ch583Kbd.Lib.Block

namespace Ep0

variable {s s' : Ep0} {r : Request} {n : Nat}

/-! ## Vendor requests -/

/-- A vendor request is accepted and does nothing. -/
theorem handle_vendor (hk : r.kind = .vendor) (s : Ep0) :
    s.handleRequest r = .ok (s, false) := by
  unfold handleRequest
  rw [hk]

theorem descriptor_none (hk : r.kind ≠ .standard) : r.descriptor = none :=
  if_neg fun h => hk h.1

/-- A request that names no descriptor and that the IN handler takes for
`USB_GET_DESCRIPTOR`, from host to device. -/
theorem served_mistaken_iff (hout : r.deviceToHost = false) (hnone : r.descriptor = none)
    (h : (s.received r).handleRequest r = .ok (s', false)) (hcode : s'.setupReqCode = 0x06)
    (hreads : ∀ x ∈ s'.reads, x.len = 0) :
    Served s ⟨r, n⟩ ↔ s'.setupReqLen = 0 ∨ n = 0 := by
  have hacks := finish_acks s' r
  have hlen : (s'.finish r false).setupReqLen = s'.setupReqLen := by
    show (if r.deviceToHost then _ else s'.setupReqLen) = _
    rw [hout]
    rfl
  have hloaded : (s'.finish r false).loaded = [] := by
    rw [finish_loaded, hout]
    rfl
  constructor
  · rintro ⟨s1, s2, ps, hserves⟩
    by_contra hno
    obtain ⟨hne, hn⟩ := not_or.mp hno
    obtain ⟨k, rfl⟩ := Nat.exists_eq_succ_of_ne_zero hn
    obtain rfl : s'.finish r false = s1 :=
      Except.ok.inj ((setup_of_handle h).symm.trans hserves.setup)
    obtain ⟨s3, qs, hs3, hrest, -⟩ := tokens_inv hacks hserves.tokens
    have hcode' : (s'.finish r false).setupReqCode = 0x06 := hcode
    have hmem := (tokens_frame _ hrest).1 (inHandler_reads hcode' hs3)
    rcases hserves.reads _ hmem with hzero | ⟨d, hd, -⟩
    · have hpacket : packetLen (s'.finish r false).setupReqLen = 0 := hzero
      rw [hlen] at hpacket
      exact hne (packetLen_eq_zero.mp hpacket)
    · rw [hnone] at hd
      cases hd
  · rintro (hzero | rfl)
    · obtain ⟨s2, hs2, hall⟩ :=
        tokens_empty n hacks hcode (hlen.trans hzero) hloaded
      rw [served_iff (setup_of_handle h) hs2, hout]
      refine ⟨nofun, ?_⟩
      intro x hx
      rcases hall x hx with hx | hx
      · exact Or.inl (hreads x hx)
      · exact Or.inl hx
    · rw [served_iff (setup_of_handle h) rfl, hout]
      exact ⟨nofun, fun x hx => Or.inl (hreads x hx)⟩

/-- A vendor request is served exactly when it is regular. -/
theorem served_vendor (hk : r.kind = .vendor) : Served s ⟨r, n⟩ ↔ Transfer.Regular ⟨r, n⟩ := by
  have hhandle := handle_vendor hk (s.received r)
  have hreply : r.reply s = none := by
    unfold Request.reply
    rw [hk]
  unfold Transfer.Regular
  simp only [hk]
  cases hdir : r.deviceToHost with
  | true =>
    have hok : ∀ q, (s.received r).handleRequest r = .ok q → q.2 = false := by
      intro q hq
      rw [← Except.ok.inj (hhandle.symm.trans hq)]
    exact iff_of_false (not_served_unnamed hdir hreply hok) fun h => nomatch h.1
  | false =>
    by_cases hcode : r.bRequest = 0x06
    · have hnone := descriptor_none (r := r) (by rw [hk]; nofun)
      rw [served_mistaken_iff hdir hnone hhandle hcode nofun, received_len]
      exact ⟨fun h => ⟨rfl, fun _ => h⟩, fun h => h.2 hcode⟩
    · have hyes := served_out (n := n) hdir hhandle hcode rfl
      exact iff_of_true hyes ⟨rfl, fun h => absurd h hcode⟩

/-! ## Class requests -/

/-- A class request is handled by its own switch. -/
theorem handle_class (hk : r.kind = .usbClass) (s : Ep0) :
    s.handleRequest r = .ok (s.classRequest r) := by
  unfold handleRequest
  rw [hk]

theorem answer_len (s : Ep0) (x : Byte) : (s.answer x).setupReqLen = s.setupReqLen := by
  rw [answer]

/-- A byte at the start of the buffer is all of the first packet exactly if
no more than one byte was asked for. -/
theorem answer_firstPacket_iff (s : Ep0) (x : Byte) :
    (s.answer x).firstPacket = [x].take s.setupReqLen.toNat ↔ s.setupReqLen.toNat ≤ 1 := by
  unfold firstPacket
  rw [answer_len]
  constructor
  · intro heq
    have hlength := congrArg List.length heq
    rw [List.length_take, Vector.length_toList, List.length_take, List.length_singleton] at hlength
    omega
  · intro hle
    have hhead : (s.answer x).databuf[0] = x := by
      rw [answer, getElem_write]
      rfl
    rw [Nat.min_eq_left (by omega), take_one _ hle, hhead]

/-- Sent again and again, it is the reply exactly if one byte was asked for
and one packet is sent, or none was asked for. -/
theorem answer_again_iff (s : Ep0) (x : Byte) (hn : n ≠ 0) :
    (List.replicate n (s.answer x).firstPacket).flatten = [x].take s.setupReqLen.toNat ↔
      s.setupReqLen = 0 ∨ s.setupReqLen = 1 ∧ n = 1 := by
  have hzero : s.setupReqLen = 0 ↔ s.setupReqLen.toNat = 0 := BitVec.toNat_eq
  have hone : s.setupReqLen = 1 ↔ s.setupReqLen.toNat = 1 := BitVec.toNat_eq
  rw [hzero, hone]
  constructor
  · intro heq
    have hlength := congrArg List.length heq
    rw [List.length_flatten, List.map_replicate, List.sum_replicate_nat, firstPacket, answer_len,
      List.length_take, Vector.length_toList, List.length_take, List.length_singleton] at hlength
    by_cases hw : s.setupReqLen.toNat = 0
    · exact Or.inl hw
    · rw [Nat.min_eq_right (show 1 ≤ s.setupReqLen.toNat by omega)] at hlength
      have hn1 := Nat.dvd_one.mp ⟨_, hlength.symm⟩
      have hpacket := Nat.dvd_one.mp ⟨_, (Nat.mul_comm _ _ ▸ hlength).symm⟩
      omega
  · rintro (hw | ⟨hw, rfl⟩)
    · have hempty : (s.answer x).firstPacket = [] := by
        rw [firstPacket, answer_len, hw]
        rfl
      rw [hempty, hw]
      simp
    · rw [List.replicate_one, List.flatten_singleton]
      exact (answer_firstPacket_iff s x).mpr (by omega)

theorem classCode_ne {c : Byte} {k : ClassCode} (h : ClassCode.ofByte c = some k) :
    c ≠ 0x06 ∧ (c = 0x03 ↔ k = .getProtocol) := by
  revert c
  cases k <;> decide

/-- A class request reads no descriptor, and is refused when its code is
unknown. -/
theorem classRequest_frame (s : Ep0) (r : Request) :
    (s.classRequest r).1.setupReqCode = s.setupReqCode ∧
      (s.classRequest r).1.reads = s.reads ∧
      ((s.classRequest r).2 = true ↔ ClassCode.ofByte r.bRequest = none) := by
  unfold classRequest
  cases hc : ClassCode.ofByte r.bRequest with
  | none => exact ⟨rfl, rfl, by simp⟩
  | some k => cases k <;> simp [answer]

/-- `GET_IDLE` answers the idle value. -/
theorem classRequest_getIdle (s : Ep0) (h : ClassCode.ofByte r.bRequest = some .getIdle) :
    (s.classRequest r).1 = s.answer s.idleValue := by
  unfold classRequest
  rw [h]

/-- `GET_PROTOCOL` answers the report value. -/
theorem classRequest_getProtocol (s : Ep0) (h : ClassCode.ofByte r.bRequest = some .getProtocol) :
    (s.classRequest r).1 = s.answer s.reportValue := by
  unfold classRequest
  rw [h]

/-- The replies that the class requests name. -/
theorem reply_class (hk : r.kind = .usbClass) {k : ClassCode}
    (h : ClassCode.ofByte r.bRequest = some k) : r.reply s =
      match k with
      | .getIdle => some [s.idleValue]
      | .getProtocol => some [s.reportValue]
      | _ => none := by
  unfold Request.reply
  cases k <;> simp [hk, h]

/-- **A class request is served exactly when it is regular.** -/
theorem served_class (hk : r.kind = .usbClass) : Served s ⟨r, n⟩ ↔ Transfer.Regular ⟨r, n⟩ := by
  have hhandle := handle_class hk (s.received r)
  obtain ⟨hcode, hreads, herr⟩ := classRequest_frame (s.received r) r
  unfold Transfer.Regular
  simp only [hk]
  cases hc : ClassCode.ofByte r.bRequest with
  | none =>
    have hrefused : (s.received r).handleRequest r =
      .ok (((s.received r).classRequest r).1, true) :=
      hhandle.trans (congrArg Except.ok (Prod.ext rfl (herr.mpr hc)))
    exact iff_of_true (served_refused hrefused (readsNamed_nil hreads)) fun _ => trivial
  | some k =>
    obtain ⟨h6, h3⟩ := classCode_ne hc
    have hfalse : ((s.received r).classRequest r).2 = false := by
      rw [← Bool.not_eq_true, herr, hc]
      nofun
    have hok : (s.received r).handleRequest r = .ok (((s.received r).classRequest r).1, false) :=
      hhandle.trans (congrArg Except.ok (Prod.ext rfl hfalse))
    cases hdir : r.deviceToHost with
    | false =>
      exact iff_of_true (served_out hdir hok (by rw [hcode]; exact h6) hreads) nofun
    | true =>
      cases k with
      | getIdle =>
        have hs' := classRequest_getIdle (s.received r) hc
        have hreply := reply_class (s := s) hk hc
        have h3' : ((s.received r).classRequest r).1.setupReqCode ≠ 0x03 := by
          rw [hcode]
          exact fun h => nomatch h3.mp h
        rw [served_short_iff hdir hok (by rw [hcode]; exact h6) h3' hreads hreply (by simp), hs']
        have hiff := answer_firstPacket_iff (s.received r) s.idleValue
        rw [received_len] at hiff
        rw [received_idle, hiff]
        exact ⟨fun h _ => h.symm, fun h => (h rfl).symm⟩
      | getProtocol =>
        have hs' := classRequest_getProtocol (s.received r) hc
        have hreply := reply_class (s := s) hk hc
        rw [served_again_iff hdir hok (by rw [hcode]; exact h3.mpr rfl) hreads hreply
          (by simp), hs']
        by_cases hn : n = 0
        · exact iff_of_true (Or.inl hn) fun _ => Or.inr (Or.inl hn)
        · have hiff := answer_again_iff (s.received r) s.reportValue hn
          rw [received_len] at hiff
          rw [received_report, hiff]
          simp [hn]
      | _ =>
        have hreply := reply_class (s := s) hk hc
        refine iff_of_false (not_served_unnamed hdir hreply ?_) fun h => h rfl
        intro q hq
        rw [← Except.ok.inj (hok.symm.trans hq)]

end Ep0

end Ch583Kbd.Usb
