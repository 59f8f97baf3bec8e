/-
Ch583Kbd.Usb.ControlDescriptorRequests — `USB_GET_DESCRIPTOR`.

`Selection` has the four ways in which the handler's choice can stand to
what the request names. Only a descriptor that is selected under its own
name is streamed from its start to the length asked for.
-/
import Ch583Kbd.Usb.ControlStandardRequests

namespace Ch583Kbd.Usb

open Ch583Kbd.Lib Ch583Kbd.Lib.Block

namespace Ep0

variable {s s' : Ep0} {r : Request} {n : Nat}

/-! ## `USB_GET_DESCRIPTOR` -/

/-- What the handler selects, against what the request names. -/
inductive Selection (r : Request) : Prop
  /-- The descriptor itself, with its length. -/
  | own (d : Descriptor) (hd : r.descriptor = some d) (hne : d ≠ .language ∧ d ≠ .serialNumber)
      (hsel : r.select = { descr := some d, len := BitVec.ofNat 8 d.size })
  /-- The serial number in place of the language codes. -/
  | other (hd : r.descriptor = some .language)
      (hsel : r.select = { descr := some .serialNumber, len := 10 })
  /-- Nothing: the request is refused. -/
  | refused (hd : r.descriptor = some .serialNumber ∨
        r.descriptor = none ∧ (r.wValue >>> 8).toNat ≠ 0x22) (hsel : r.select = { err := true })
  /-- Whatever `pDescr` points at. -/
  | stale (hd : r.descriptor = none) (hreport : (r.wValue >>> 8).toNat = 0x22)
      (hsel : r.select = { len := 0xFF })

/-- The report descriptors are named by the interface. -/
theorem descriptor_report (hk : r.kind = .standard) (hcode : r.bRequest = 0x06)
    (hv : (r.wValue >>> 8).toNat = 0x22) : r.descriptor =
      match (r.wIndex &&& 0xFF).toNat with
      | 0 => some .report
      | 1 => some .report2
      | 2 => some .report3
      | _ => none := by
  unfold Request.descriptor
  rw [if_pos ⟨hk, hcode⟩, hv]
  rfl

/-- The string descriptors are named by their index. -/
theorem descriptor_string (hk : r.kind = .standard) (hcode : r.bRequest = 0x06)
    (hv : (r.wValue >>> 8).toNat = 0x03) : r.descriptor =
      match (r.wValue &&& 0xFF).toNat with
      | 0 => some .language
      | 1 => some .manufacturer
      | 2 => some .product
      | 3 => some .serialNumber
      | _ => none := by
  unfold Request.descriptor
  rw [if_pos ⟨hk, hcode⟩, hv]
  rfl

/-- A size that is assigned to `len`. -/
theorem len_of_size (k : Nat) : (BitVec.ofNat 16 k).setWidth 8 = BitVec.ofNat 8 k :=
  BitVec.setWidth_ofNat_of_le (by decide) k

/-- The switches of the source select the descriptor that the request names, or
refuse it. -/
theorem selection (hk : r.kind = .standard) (hcode : r.bRequest = 0x06) : Selection r := by
  have hd : r.descriptor = _ := if_pos ⟨hk, hcode⟩
  have hsel : r.select = r.select := rfl
  conv_rhs at hsel => unfold Request.select
  split at hsel
  · next hv =>
    rw [hv] at hd
    exact .own .device hd (by decide) hsel
  · next hv =>
    rw [hv] at hd
    exact .own .config hd (by decide) hsel
  · next hv =>
    have hreport := descriptor_report hk hcode hv
    split at hsel
    · next hi =>
      rw [hi] at hreport
      rw [hidReportDescSize, len_of_size] at hsel
      exact .own .report hreport (by decide) hsel
    · next hi =>
      rw [hi] at hreport
      rw [hidReportDescSize2, len_of_size] at hsel
      exact .own .report2 hreport (by decide) hsel
    · next hi =>
      rw [hi] at hreport
      rw [hidReportDescSize3, len_of_size] at hsel
      exact .own .report3 hreport (by decide) hsel
    · next h0 h1 h2 =>
      refine .stale ?_ hv hsel
      rw [hreport]
      split
      · next hi => exact absurd hi h0
      · next hi => exact absurd hi h1
      · next hi => exact absurd hi h2
      · rfl
  · next hv =>
    have hstring := descriptor_string hk hcode hv
    split at hsel
    · next hi =>
      rw [hi] at hstring
      exact .own .manufacturer hstring (by decide) hsel
    · next hi =>
      rw [hi] at hstring
      exact .own .product hstring (by decide) hsel
    · next hi =>
      rw [hi] at hstring
      exact .other hstring hsel
    · next h1 h2 h0 =>
      refine .refused ?_ hsel
      rw [hstring, hv]
      split
      · next hi => exact absurd hi h0
      · next hi => exact absurd hi h1
      · next hi => exact absurd hi h2
      · exact Or.inl rfl
      · exact Or.inr ⟨rfl, by decide⟩
  · next h1 h2 h22 h3 =>
    refine .refused (Or.inr ⟨?_, h22⟩) hsel
    rw [hd]
    split
    · next hv => exact absurd hv h1
    · next hv => exact absurd hv h2
    · next hv => exact absurd hv h22
    · next hv => exact absurd hv h3
    · rfl

/-- `pDescr` when the handler reads. -/
def pointerFor (s : Ep0) (r : Request) : Option (Descriptor × Nat) :=
  match r.select.descr with
  | some d => some (d, 0)
  | none => s.pDescr

/-- The state in which the descriptor is copied. -/
def aimed (s : Ep0) (r : Request) : Ep0 :=
  { s with
    pDescr := s.pointerFor r
    setupReqLen := s.limitLen (r.select.len.setWidth 16) }

/-- `USB_GET_DESCRIPTOR` aims at the descriptor selected and copies its first
packet. -/
theorem getDescriptor_eq (s : Ep0) (r : Request) : s.getDescriptor r =
    ((s.aimed r).copyDescr (packetLen (s.aimed r).setupReqLen)).map (·, r.select.err) := by
  unfold getDescriptor
  show ((s.aimed r).copyDescr (packetLen (s.aimed r).setupReqLen) >>= _) = _
  cases (s.aimed r).copyDescr (packetLen (s.aimed r).setupReqLen) <;> rfl

theorem size_toNat (d : Descriptor) : (BitVec.ofNat 8 d.size).toNat = d.size := by
  cases d <;> decide +kernel

/-- A descriptor is selected: the first packet is loaded. -/
theorem getDescriptor_known {d : Descriptor} {len : Nat} (s : Ep0)
    (hsel : r.select = { descr := some d, len := BitVec.ofNat 8 d.size })
    (hlen : len = min s.setupReqLen.toNat d.size) :
    ∃ s', s.getDescriptor r = .ok (s', false) ∧ s'.setupReqCode = s.setupReqCode ∧
      s'.pDescr = some (d, min len 64) ∧ s'.setupReqLen.toNat = len ∧
      s'.reads = s.reads ++ [⟨some (d, 0), min len 64⟩] ∧
      s'.databuf.toList.take (min len 64) = d.bytes.take (min len 64) := by
  have hlimit : (s.aimed r).setupReqLen.toNat = len := by
    show (s.limitLen (r.select.len.setWidth 16)).toNat = len
    rw [hsel, limitLen_toNat, BitVec.toNat_setWidth_of_le (by decide), size_toNat, hlen]
  have hpacket : packetLen (s.aimed r).setupReqLen = min len 64 := by
    rw [packetLen_eq, hlimit]
  have hfit : 0 + min len 64 ≤ d.size := by omega
  have hpointer : (s.aimed r).pDescr = some (d, 0) := by
    show s.pointerFor r = _
    unfold pointerFor
    rw [hsel]
  rw [getDescriptor_eq, hpacket, copyDescr_ok hpointer hfit, hsel]
  refine ⟨_, rfl, rfl, ?_, hlimit, rfl, ?_⟩
  · rw [Nat.zero_add]
  · have hsize : d.size = d.bytes.length := rfl
    have hlength : (d.bytes.take (min len 64)).length = min len 64 := by
      rw [List.length_take]
      omega
    have htake := take_write (b := s.databuf) (l := d.bytes.take (min len 64)) (by omega)
    rw [hlength] at htake
    rw [List.drop_zero]
    exact htake

/-- What the SETUP part reads is in the log. -/
theorem getDescriptor_reads {q : Ep0 × Bool} (h : s.getDescriptor r = .ok q) :
    ⟨s.pointerFor r, packetLen (s.limitLen (r.select.len.setWidth 16))⟩ ∈ q.1.reads ∧
      q.2 = r.select.err := by
  rw [getDescriptor_eq] at h
  obtain ⟨s1, hcopy, rfl⟩ := map_ok h
  obtain ⟨data, -, rfl⟩ := copyDescr_inv hcopy
  exact ⟨List.mem_append_right _ (List.mem_singleton.mpr rfl), rfl⟩

/-- A request for no byte reads nothing and leaves nothing to send. -/
theorem getDescriptor_empty (s : Ep0)
    (hlen : s.limitLen (r.select.len.setWidth 16) = 0) :
    ∃ s', s.getDescriptor r = .ok (s', r.select.err) ∧ s'.setupReqCode = s.setupReqCode ∧
      s'.setupReqLen = 0 ∧ s'.reads = s.reads ++ [⟨s.pointerFor r, 0⟩] := by
  have hzero : (s.aimed r).setupReqLen = 0 := hlen
  rw [getDescriptor_eq, hzero]
  exact ⟨_, rfl, rfl, hzero, rfl⟩

theorem standard_getDescriptor (hcode : r.bRequest = 0x06) (s : Ep0) :
    s.standardRequest r = s.getDescriptor r := by
  unfold standardRequest
  rw [hcode]
  rfl

/-- The reply to a request for a descriptor is the descriptor it names. -/
theorem reply_descriptor (hk : r.kind = .standard) (hcode : r.bRequest = 0x06) (s : Ep0) :
    r.reply s = r.descriptor.map Descriptor.bytes := by
  rw [reply_standard hk (k := .getDescriptor) (by rw [hcode]; rfl)]

/-- Reads inside the descriptor that was named are allowed. -/
theorem readsNamed_of {s2 : Ep0} {d : Descriptor} (hd : r.descriptor = some d)
    (h : ∀ x ∈ s2.reads, DescrRead.Inside d x) : ReadsNamed r s2 :=
  fun x hx => Or.inr ⟨d, hd, h x hx⟩

/-- The length that is kept of a request, from the object on. -/
theorem take_kept (d : Descriptor) (w m : Nat) :
    d.bytes.take (min m (min w d.size)) = (d.bytes.take w).take m := by
  have hsize : d.size = d.bytes.length := rfl
  rw [List.take_take, List.take_eq_take_iff]
  omega

/-- A descriptor that is served under its own name. -/
theorem served_own {d : Descriptor} {len : Nat} (hk : r.kind = .standard)
    (hcode : r.bRequest = 0x06) (hd : r.descriptor = some d)
    (hsel : r.select = { descr := some d, len := BitVec.ofNat 8 d.size })
    (hlen : len = min r.wLength.toNat d.size) : Served s ⟨r, n⟩ ↔
      (r.deviceToHost = true ∨ min len 64 + min (64 * n) len ≤ d.size) := by
  obtain ⟨s', hs', hcode', hptr, hrem, hreads, hbuf⟩ :=
    getDescriptor_known (s.received r) hsel hlen
  have hhandle := ((handle_standard hk _).trans (standard_getDescriptor hcode _)).trans hs'
  have hsetup := setup_of_handle hhandle
  have hacks := finish_acks s' r
  have hcode1 : (s'.finish r false).setupReqCode = 0x06 := hcode'.trans hcode
  have hptr1 : (s'.finish r false).pDescr = some (d, min len 64) := hptr
  have hreads1 : (s'.finish r false).reads = [⟨some (d, 0), min len 64⟩] := hreads
  have hfit : min len 64 ≤ d.size := by omega
  have hinside : ∀ s2 : Ep0, (∀ x ∈ s2.reads, x ∈ (s'.finish r false).reads ∨
      DescrRead.Inside d x) → ReadsNamed r s2 := by
    intro s2 hall
    apply readsNamed_of hd
    intro x hx
    rcases hall x hx with hx | hx
    · rw [hreads1] at hx
      obtain rfl := List.mem_singleton.mp hx
      exact ⟨0, rfl, show 0 + min len 64 ≤ d.size by omega⟩
    · exact hx
  cases hdir : r.deviceToHost with
  | true =>
    -- the SETUP packet loads the first piece and each token the next one
    have hstream : Streams (s'.finish r false) d ((⟨0, len⟩ : ChunkReader).next 64) := by
      refine ⟨hacks, hcode1, ?_, ?_⟩
      · rw [hptr1, ChunkReader.next, ChunkReader.due, Nat.zero_add]
      · rw [finish_len hdir, hrem]
        rfl
    have hreach : ((⟨0, len⟩ : ChunkReader).next 64).reach 64 n ≤ d.size := by
      rw [ChunkReader.reach_next]
      simp only [ChunkReader.reach]
      omega
    have hloaded : (s'.finish r false).loaded = (⟨0, len⟩ : ChunkReader).piece 64 d.bytes := by
      rw [finish_loaded, if_pos hdir, hrem, hbuf]
      rfl
    obtain ⟨s2, hs2, hall⟩ := tokens_stream n hstream hreach
    have hpackets : ((s'.finish r false).loaded ::
        ((⟨0, len⟩ : ChunkReader).next 64).pieces 64 d.bytes n).take n =
          (⟨0, len⟩ : ChunkReader).pieces 64 d.bytes n := by
      rw [hloaded]
      exact ChunkReader.take_pieces 64 ⟨0, len⟩ n d.bytes
    rw [hpackets] at hs2
    refine iff_of_true ((served_iff hsetup hs2).mpr ⟨fun _ => Or.inr ?_, hinside s2 hall⟩)
      (Or.inl rfl)
    refine ⟨d.bytes, ?_, ?_, fun p hp => ChunkReader.mem_pieces 64 hp⟩
    · rw [reply_descriptor hk hcode, hd]
      rfl
    · rw [ChunkReader.flatten_pieces, List.drop_zero, hlen]
      exact take_kept d r.wLength.toNat (64 * n)
  | false =>
    -- nothing is due to the host, yet tokens read on behind the first piece
    have hstream : Streams (s'.finish r false) d ⟨min len 64, len⟩ := by
      refine ⟨hacks, hcode1, hptr1, ?_⟩
      show (if r.deviceToHost then _ else s'.setupReqLen).toNat = len
      rw [hdir]
      exact hrem
    have hreach : (⟨min len 64, len⟩ : ChunkReader).reach 64 n =
        min len 64 + min (64 * n) len := rfl
    rw [← hreach]
    constructor
    · rintro ⟨s1, s2, ps, hserves⟩
      obtain rfl : s'.finish r false = s1 := Except.ok.inj (hsetup.symm.trans hserves.setup)
      exact Or.inr (reach_of_tokens n hstream hfit hserves.tokens)
    · rintro (hin | hle)
      · cases hin
      · obtain ⟨s2, hs2, hall⟩ := tokens_stream n hstream hle
        rw [served_iff hsetup hs2, hdir]
        exact ⟨by simp, hinside s2 hall⟩

/-- A SETUP part that reads something the request does not name. -/
theorem not_served_read (hk : r.kind = .standard) (hcode : r.bRequest = 0x06)
    (hlen : (s.received r).limitLen (r.select.len.setWidth 16) ≠ 0)
    (hother : ∀ d, r.descriptor = some d → ∀ offset, (s.received r).pointerFor r ≠
      some (d, offset)) :
    ¬ Served s ⟨r, n⟩ := by
  rintro ⟨s1, s2, ps, hserves⟩
  have hsetup := hserves.setup
  rw [setup_eq, handle_standard hk, standard_getDescriptor hcode] at hsetup
  obtain ⟨q, hq, rfl⟩ := map_ok hsetup
  have hread := (getDescriptor_reads hq).1
  rw [← (finish_frame q.1 r q.2).2.1] at hread
  rcases hserves.reads _ ((tokens_frame _ hserves.tokens).1 hread) with
    hzero | ⟨d, hd, offset, hfrom, -⟩
  · exact hlen (packetLen_eq_zero.mp hzero)
  · exact hother d hd offset hfrom

/-- A request with code 6 for no byte is served with empty packets. -/
theorem served_nothing (hk : r.kind = .standard) (hcode : r.bRequest = 0x06)
    (hw : r.wLength = 0) (herr : r.select.err = false)
    (hreply : r.deviceToHost = true → ∃ obj, r.reply s = some obj) : Served s ⟨r, n⟩ := by
  have hlimit : (s.received r).limitLen (r.select.len.setWidth 16) = 0 := by
    apply BitVec.eq_of_toNat_eq
    rw [limitLen_toNat, received_len, hw]
    exact Nat.zero_min _
  obtain ⟨s', hs', hcode', hrem, hreads⟩ := getDescriptor_empty (s.received r) hlimit
  rw [herr] at hs'
  have hhandle := ((handle_standard hk _).trans (standard_getDescriptor hcode _)).trans hs'
  have hlen : (s'.finish r false).setupReqLen = 0 := by
    show (if r.deviceToHost then s'.setupReqLen - BitVec.ofNat 16 _ else s'.setupReqLen) = 0
    rw [finish_firstLen, hrem]
    split <;> rfl
  have hloaded : (s'.finish r false).loaded = [] := by
    rw [finish_loaded, hrem]
    split <;> rfl
  obtain ⟨s2, hs2, hall⟩ :=
    tokens_empty n (finish_acks s' r) (hcode'.trans hcode) hlen hloaded
  rw [served_iff (setup_of_handle hhandle) hs2]
  constructor
  · intro hin
    obtain ⟨obj, hobj⟩ := hreply hin
    refine Or.inr ⟨obj, hobj, ?_, ?_⟩
    · rw [hw]
      simp
    · intro p hp
      rw [List.eq_of_mem_replicate hp]
      exact Nat.zero_le _
  · intro x hx
    rcases hall x hx with hx | hx
    · have hmem : x ∈ (s.received r).reads ++ [⟨(s.received r).pointerFor r, 0⟩] := hreads ▸ hx
      rw [received_reads, List.nil_append] at hmem
      rw [List.mem_singleton.mp hmem]
      exact Or.inl rfl
    · exact Or.inl hx

/-- A request for some bytes of a descriptor leaves some to send. -/
theorem limit_ne_zero (hw : r.wLength ≠ 0) (hsel : r.select.len ≠ 0) :
    (s.received r).limitLen (r.select.len.setWidth 16) ≠ 0 := by
  intro hzero
  have hnat := congrArg BitVec.toNat hzero
  rw [limitLen_toNat, received_len, BitVec.toNat_setWidth_of_le (by decide)] at hnat
  have hw' : r.wLength.toNat ≠ 0 := fun h => hw (BitVec.eq_of_toNat_eq h)
  have hsel' : r.select.len.toNat ≠ 0 := fun h => hsel (BitVec.eq_of_toNat_eq h)
  have hz : (0 : BitVec 16).toNat = 0 := rfl
  omega

/-- The string with index 0: the serial number is read for the language
codes. -/
theorem served_language (hk : r.kind = .standard) (hcode : r.bRequest = 0x06)
    (hd : r.descriptor = some .language)
    (hsel : r.select = { descr := some .serialNumber, len := 10 }) :
    Served s ⟨r, n⟩ ↔ r.wLength = 0 := by
  constructor
  · intro hserved
    by_contra hw
    refine not_served_read hk hcode (limit_ne_zero hw (by rw [hsel]; decide)) ?_ hserved
    intro d hd' offset hpointer
    obtain rfl : Descriptor.language = d := Option.some.inj (hd.symm.trans hd')
    unfold pointerFor at hpointer
    rw [hsel] at hpointer
    cases hpointer
  · intro hw
    refine served_nothing hk hcode hw (by rw [hsel]) fun _ => ⟨Descriptor.language.bytes, ?_⟩
    rw [reply_descriptor hk hcode, hd]
    rfl

/-- The report descriptor of an interface from 3 on. -/
theorem served_stale (hk : r.kind = .standard) (hcode : r.bRequest = 0x06)
    (hd : r.descriptor = none) (hsel : r.select = { len := 0xFF }) :
    Served s ⟨r, n⟩ ↔ r.deviceToHost = false ∧ r.wLength = 0 := by
  constructor
  · intro hserved
    constructor
    · rw [← Bool.not_eq_true]
      intro hin
      refine not_served_unnamed hin ?_ ?_ hserved
      · rw [reply_descriptor hk hcode, hd]
        rfl
      · intro q hq
        rw [handle_standard hk, standard_getDescriptor hcode] at hq
        rw [(getDescriptor_reads hq).2, hsel]
    · by_contra hw
      refine not_served_read hk hcode (limit_ne_zero hw (by rw [hsel]; decide)) ?_ hserved
      intro d hd'
      rw [hd] at hd'
      cases hd'
  · rintro ⟨hout, hw⟩
    refine served_nothing hk hcode hw (by rw [hsel]) ?_
    rw [hout]
    nofun

/-- A descriptor that the keyboard refuses is answered with STALL. -/
theorem served_unknown (hk : r.kind = .standard) (hcode : r.bRequest = 0x06)
    (hsel : r.select = { err := true }) : Served s ⟨r, n⟩ := by
  have hlimit : (s.received r).limitLen (r.select.len.setWidth 16) = 0 := by
    apply BitVec.eq_of_toNat_eq
    rw [limitLen_toNat, hsel]
    exact Nat.min_zero _
  obtain ⟨s', hs', -, -, hreads⟩ := getDescriptor_empty (s.received r) hlimit
  rw [hsel] at hs'
  have hhandle := ((handle_standard hk _).trans (standard_getDescriptor hcode _)).trans hs'
  apply served_refused hhandle
  intro x hx
  have hmem : x ∈ (s.received r).reads ++ [⟨(s.received r).pointerFor r, 0⟩] := hreads ▸ hx
  rw [received_reads, List.nil_append] at hmem
  rw [List.mem_singleton.mp hmem]
  exact Or.inl rfl

/-- **A request for a descriptor is served exactly when it is regular.** -/
theorem served_descriptor (hk : r.kind = .standard) (hcode : r.bRequest = 0x06) :
    Served s ⟨r, n⟩ ↔ Transfer.RegularDescriptor ⟨r, n⟩ := by
  unfold Transfer.RegularDescriptor
  cases selection hk hcode with
  | own d hd hne hsel =>
    rw [served_own hk hcode hd hsel rfl, hd]
    cases d with
    | language => exact absurd rfl hne.1
    | serialNumber => exact absurd rfl hne.2
    | _ => exact Iff.rfl
  | other hd hsel =>
    rw [served_language hk hcode hd hsel, hd]
  | refused hd hsel =>
    refine iff_of_true (served_unknown hk hcode hsel) ?_
    rcases hd with hd | ⟨hd, hne⟩
    · rw [hd]
      trivial
    · rw [hd]
      exact fun h => absurd h hne
  | stale hd hreport hsel =>
    rw [served_stale hk hcode hd hsel, hd]
    exact ⟨fun h _ => h, fun h => h hreport⟩

end Ep0

end Ch583Kbd.Usb
