/-
Ch583Kbd.Usb.ControlTokens — any number of IN tokens after a SETUP packet.

The IN handler goes by the request code. For most codes it sends one packet
and then NAKs (`tokens_once`); for 3 it leaves the packet for the next
token (`tokens_again`); for 6 it is a chunk reader over the object that
`pDescr` points into (`tokens_stream`), and such a run of tokens ends
without a fault only if the chunks stay in the object (`reach_of_tokens`).
-/
import Ch583Kbd.Lib.ChunkReader
import Ch583Kbd.Usb.ControlTransfer

namespace Ch583Kbd.Usb

open Ch583Kbd.Lib Ch583Kbd.Lib.Block

/-- A read inside an object. -/
def DescrRead.Inside (d : Descriptor) (x : DescrRead) : Prop :=
  ∃ offset, x.from? = some (d, offset) ∧ offset + x.len ≤ d.size

namespace Ep0

/-- A number of IN tokens, and the packets that the host gets. -/
def tokens : Nat → Ep0 → Except Fault (Ep0 × List (List Byte))
  | 0, s => .ok (s, [])
  | n + 1, s => do
    let (s', p) ← s.inToken
    let (s'', ps) ← tokens n s'
    return (s'', p.toList ++ ps)

/-- The next packet. -/
def loaded (s : Ep0) : List Byte := s.databuf.toList.take s.tLen

/-- The next IN token is answered with data. -/
def Acks (s : Ep0) : Prop := s.ctrl &&& maskUepTRes = uepTResAck

variable {s s' : Ep0} {n : Nat}

/-- An IN token takes the packet that is loaded and runs the handler. -/
theorem inToken_acks (h : s.Acks) :
    s.inToken = s.inHandler.map fun s' => (s', some s.loaded) := by
  have hack : s.ctrl &&& maskUepTRes = uepTResAck := h
  unfold inToken
  rw [if_pos hack]
  cases s.inHandler <;> rfl

/-- An IN token that is not acknowledged takes nothing. -/
theorem inToken_not (h : ¬ s.Acks) : s.inToken = .ok (s, none) := if_neg h

theorem tokens_succ {p : Option (List Byte)} (h : s.inToken = .ok (s', p)) :
    tokens (n + 1) s = (tokens n s').map fun q => (q.1, p.toList ++ q.2) := by
  show (s.inToken >>= fun q => tokens n q.1 >>= fun q' => pure (q'.1, q.2.toList ++ q'.2)) = _
  rw [h]
  show (tokens n s' >>= fun q' => pure (q'.1, p.toList ++ q'.2)) = _
  cases tokens n s' <;> rfl

/-- The first of several tokens that were all handled. -/
theorem tokens_inv {q : Ep0 × List (List Byte)} (hacks : s.Acks)
    (h : tokens (n + 1) s = .ok q) : ∃ s1 qs, s.inHandler = .ok s1 ∧
      tokens n s1 = .ok (q.1, qs) ∧ q.2 = s.loaded :: qs := by
  unfold tokens at h
  rw [inToken_acks hacks] at h
  obtain ⟨p, hp, h⟩ := bind_ok h
  obtain ⟨s1, hs1, rfl⟩ := map_ok hp
  obtain ⟨q1, hq1, h⟩ := bind_ok h
  obtain rfl := Except.ok.inj h
  exact ⟨s1, q1.2, hs1, hq1, rfl⟩

/-- No packet while the endpoint does not acknowledge. -/
theorem tokens_not (h : ¬ s.Acks) : ∀ n, tokens n s = .ok (s, []) := by
  intro n
  induction n with
  | zero => rfl
  | succ n ih =>
    rw [tokens_succ (inToken_not h), ih]
    rfl

theorem not_acks_nak : ¬ (uepRResAck ||| uepTResNak) &&& maskUepTRes = uepTResAck := by decide

/-- After a code without a stream the endpoint is done with one packet. -/
theorem inHandler_once (h : s.setupReqCode ≠ 0x06) (h' : s.setupReqCode ≠ 0x03) :
    ∃ s', s.inHandler = .ok s' ∧ ¬ s'.Acks ∧ s'.reads = s.reads := by
  unfold inHandler
  split
  · next hc => exact absurd (BitVec.eq_of_toNat_eq hc) h
  · exact ⟨_, rfl, not_acks_nak, rfl⟩
  · next hc => exact absurd (BitVec.eq_of_toNat_eq hc) h'
  · exact ⟨_, rfl, not_acks_nak, rfl⟩

/-- A reply of one packet is sent for the first token only. -/
theorem tokens_once (hacks : s.Acks) (h : s.setupReqCode ≠ 0x06) (h' : s.setupReqCode ≠ 0x03) :
    ∃ s', tokens n s = .ok (s', if n = 0 then [] else [s.loaded]) ∧ s'.reads = s.reads := by
  cases n with
  | zero => exact ⟨s, rfl, rfl⟩
  | succ n =>
    obtain ⟨s', hs', hnak, hreads⟩ := inHandler_once h h'
    have htoken := inToken_acks hacks
    rw [hs'] at htoken
    refine ⟨s', ?_, hreads⟩
    rw [tokens_succ htoken, tokens_not hnak]
    rfl

/-- The handler does nothing for the code 3. -/
theorem inHandler_again (h : s.setupReqCode = 0x03) : s.inHandler = .ok s := by
  unfold inHandler
  rw [h]
  rfl

/-- For the code 3 the same packet is sent for every token. -/
theorem tokens_again (hacks : s.Acks) (h : s.setupReqCode = 0x03) :
    ∀ n, tokens n s = .ok (s, List.replicate n s.loaded) := by
  intro n
  induction n with
  | zero => rfl
  | succ n ih =>
    have htoken := inToken_acks hacks
    rw [inHandler_again h] at htoken
    rw [tokens_succ htoken, ih]
    rfl

/-! ## Streaming a descriptor -/

/-- The handler is to send what a chunk reader has left of an object. -/
structure Streams (s : Ep0) (d : Descriptor) (r : ChunkReader) : Prop where
  acks : s.Acks
  code : s.setupReqCode = 0x06
  pointer : s.pDescr = some (d, r.offset)
  remaining : s.setupReqLen.toNat = r.remaining

theorem acks_toggle {c : Byte} (h : c &&& maskUepTRes = uepTResAck) :
    (c ^^^ rbUepTTog) &&& maskUepTRes = uepTResAck := by
  revert c
  decide

theorem packetLen_eq (reqLen : BitVec 16) : packetLen reqLen = min reqLen.toNat 64 := by
  unfold packetLen devEp0Size
  split <;> omega

theorem packetLen_eq_zero {len : BitVec 16} : packetLen len = 0 ↔ len = 0 := by
  rw [packetLen_eq]
  constructor
  · intro h
    apply BitVec.eq_of_toNat_eq
    show len.toNat = 0
    omega
  · rintro rfl
    rfl

theorem toNat_sub_ofNat {a : BitVec 16} {k : Nat} (h : k ≤ a.toNat) :
    (a - BitVec.ofNat 16 k).toNat = a.toNat - k := by
  have ha := a.isLt
  have hk : (BitVec.ofNat 16 k).toNat = k := by
    rw [BitVec.toNat_ofNat]
    omega
  rw [BitVec.toNat_sub_of_le, hk]
  rw [BitVec.le_def, hk]
  exact h

/-- A read inside a descriptor answers its bytes. -/
theorem readDescr_ok {d : Descriptor} {offset len : Nat} (h : offset + len ≤ d.size) :
    readDescr (some (d, offset)) len = .ok ((d.bytes.drop offset).take len) := by
  unfold readDescr
  split
  · next hlen => rw [hlen, List.take_zero]
  · exact if_pos h

/-- A copy from inside a descriptor puts its bytes at the start of the buffer. -/
theorem copyDescr_ok {d : Descriptor} {offset len : Nat} (hp : s.pDescr = some (d, offset))
    (h : offset + len ≤ d.size) : s.copyDescr len = .ok { s with
      databuf := write s.databuf 0 ((d.bytes.drop offset).take len)
      pDescr := some (d, offset + len)
      reads := s.reads ++ [⟨some (d, offset), len⟩] } := by
  unfold copyDescr
  rw [hp, readDescr_ok h]
  rfl

theorem copyDescr_inv {len : Nat} (h : s.copyDescr len = .ok s') :
    ∃ data, readDescr s.pDescr len = .ok data ∧ s' = { s with
      databuf := write s.databuf 0 data
      pDescr := s.pDescr.map fun p => (p.1, p.2 + len)
      reads := s.reads ++ [⟨s.pDescr, len⟩] } := by
  obtain ⟨data, hdata, h⟩ := bind_ok h
  exact ⟨data, hdata, (Except.ok.inj h).symm⟩

/-- What comes back from the buffer when a packet was put there. -/
theorem take_write {b : Vector Byte 64} {l : List Byte} (h : l.length ≤ 64) :
    (write b 0 l).toList.take l.length = l := by
  have hslice : slice (write b 0 l) 0 l.length = l := slice_write b (by omega)
  rw [slice, List.drop_zero] at hslice
  exact hslice

/-- For the code 6 the handler copies the next packet and goes on behind it. -/
theorem inHandler_descr (h : s.setupReqCode = 0x06) :
    s.inHandler = (s.copyDescr (packetLen s.setupReqLen)).map fun s' => { s' with
      setupReqLen := s.setupReqLen - BitVec.ofNat 16 (packetLen s.setupReqLen)
      tLen := packetLen s.setupReqLen
      ctrl := s.ctrl ^^^ rbUepTTog } := by
  unfold inHandler
  rw [h]
  show (s.copyDescr (packetLen s.setupReqLen) >>= _) = _
  cases s.copyDescr (packetLen s.setupReqLen) <;> rfl

/-- The first IN token of a request with code 6 reads behind `pDescr`. -/
theorem inHandler_reads (hcode : s.setupReqCode = 0x06) (h : s.inHandler = .ok s') :
    ⟨s.pDescr, packetLen s.setupReqLen⟩ ∈ s'.reads := by
  rw [inHandler_descr hcode] at h
  obtain ⟨s1, hcopy, rfl⟩ := map_ok h
  obtain ⟨data, -, rfl⟩ := copyDescr_inv hcopy
  exact List.mem_append_right _ (List.mem_singleton.mpr rfl)

variable {d : Descriptor} {r : ChunkReader}

/-- A token sends what is loaded and loads the next piece. -/
theorem inHandler_stream (h : Streams s d r) (hfit : r.offset + r.due 64 ≤ d.size) :
    ∃ s', s.inHandler = .ok s' ∧ Streams s' d (r.next 64) ∧ s'.loaded = r.piece 64 d.bytes ∧
      s'.reads = s.reads ++ [⟨some (d, r.offset), r.due 64⟩] := by
  have hlen : packetLen s.setupReqLen = r.due 64 := by
    rw [packetLen_eq, h.remaining]
    rfl
  have hdue : r.due 64 ≤ 64 := Nat.min_le_right _ _
  have hle : r.due 64 ≤ s.setupReqLen.toNat := by
    rw [h.remaining]
    exact Nat.min_le_left _ _
  have hpiece : (r.piece 64 d.bytes).length = r.due 64 := by
    have hsize : d.size = d.bytes.length := rfl
    simp only [ChunkReader.piece, List.length_take, List.length_drop]
    omega
  rw [inHandler_descr h.code, hlen, copyDescr_ok h.pointer hfit]
  refine ⟨_, rfl, ⟨acks_toggle h.acks, h.code, rfl, ?_⟩, ?_, rfl⟩
  · show (s.setupReqLen - BitVec.ofNat 16 (r.due 64)).toNat = _
    rw [toNat_sub_ofNat hle, h.remaining]
    rfl
  · have htake := take_write (b := s.databuf) (l := r.piece 64 d.bytes) (by omega)
    rw [hpiece] at htake
    exact htake

/-- **The packets of a stream are the pieces of its descriptor**, by induction
over the tokens. -/
theorem tokens_stream : ∀ n {s : Ep0} {r : ChunkReader}, Streams s d r → r.reach 64 n ≤ d.size →
    ∃ s', tokens n s = .ok (s', (s.loaded :: r.pieces 64 d.bytes n).take n) ∧
      ∀ x ∈ s'.reads, x ∈ s.reads ∨ DescrRead.Inside d x := by
  intro n
  induction n with
  | zero =>
    intro s r _ _
    exact ⟨s, rfl, fun x hx => Or.inl hx⟩
  | succ n ih =>
    intro s r h hreach
    have hfit := Nat.le_trans (r.due_le_reach 64 n) hreach
    obtain ⟨s1, hs1, hstream, hloaded, hreads⟩ := inHandler_stream h hfit
    rw [← ChunkReader.reach_next] at hreach
    obtain ⟨s2, hs2, hall⟩ := ih hstream hreach
    have htoken := inToken_acks h.acks
    rw [hs1] at htoken
    refine ⟨s2, ?_, ?_⟩
    · rw [tokens_succ htoken, hs2, hloaded]
      rfl
    · intro x hx
      rcases hall x hx with hx | hx
      · rw [hreads] at hx
        rcases List.mem_append.mp hx with hx | hx
        · exact Or.inl hx
        · obtain rfl := List.mem_singleton.mp hx
          exact Or.inr ⟨r.offset, rfl, hfit⟩
      · exact Or.inr hx

/-- Tokens that were all handled did not leave the object. -/
theorem reach_of_tokens : ∀ n {s : Ep0} {r : ChunkReader} {q : Ep0 × List (List Byte)},
    Streams s d r → r.offset ≤ d.size → tokens n s = .ok q → r.reach 64 n ≤ d.size := by
  intro n
  induction n with
  | zero =>
    intro s r q _ hoff _
    rw [ChunkReader.reach_zero]
    exact hoff
  | succ n ih =>
    intro s r q h hoff hq
    have hdue : packetLen s.setupReqLen = r.due 64 := by
      rw [packetLen_eq, h.remaining]
      rfl
    obtain ⟨s1, qs, hs1, hrest, -⟩ := tokens_inv h.acks hq
    have hfit : r.offset + r.due 64 ≤ d.size := by
      by_contra hout
      have hread : readDescr (some (d, r.offset)) (r.due 64) = .error .source := by
        unfold readDescr
        rw [if_neg (by omega)]
        exact if_neg hout
      rw [inHandler_descr h.code, hdue, copyDescr, h.pointer, hread] at hs1
      cases hs1
    obtain ⟨s1', hs1', hstream, -, -⟩ := inHandler_stream h hfit
    obtain rfl : s1 = s1' := Except.ok.inj (hs1.symm.trans hs1')
    rw [← ChunkReader.reach_next]
    exact ih hstream hfit hrest

/-- Where nothing is left of the request, every token takes an empty packet. -/
theorem tokens_empty : ∀ n {s : Ep0}, s.Acks → s.setupReqCode = 0x06 → s.setupReqLen = 0 →
    s.loaded = [] → ∃ s', tokens n s = .ok (s', List.replicate n []) ∧
      ∀ x ∈ s'.reads, x ∈ s.reads ∨ x.len = 0 := by
  intro n
  induction n with
  | zero =>
    intro s _ _ _ _
    exact ⟨s, rfl, fun x hx => Or.inl hx⟩
  | succ n ih =>
    intro s hacks hcode hlen hloaded
    have hzero : packetLen s.setupReqLen = 0 := by
      rw [packetLen_eq, hlen]
      rfl
    have htoken := inToken_acks hacks
    rw [inHandler_descr hcode, hzero] at htoken
    obtain ⟨s1, hcopy, hs1⟩ : ∃ s1, s.copyDescr 0 = .ok s1 ∧ s1.setupReqCode = 0x06 ∧
        s1.reads = s.reads ++ [⟨s.pDescr, 0⟩] := ⟨_, rfl, hcode, rfl⟩
    rw [hcopy] at htoken
    obtain ⟨s2, hs2, hall⟩ := ih (s := { s1 with
      setupReqLen := s.setupReqLen - BitVec.ofNat 16 0
      tLen := 0
      ctrl := s.ctrl ^^^ rbUepTTog }) (acks_toggle hacks) hs1.1 (by rw [hlen]; rfl) rfl
    refine ⟨s2, ?_, ?_⟩
    · rw [tokens_succ htoken, hs2, hloaded]
      rfl
    · intro x hx
      rcases hall x hx with hx | hx
      · rw [show Ep0.reads _ = s1.reads from rfl, hs1.2] at hx
        rcases List.mem_append.mp hx with hx | hx
        · exact Or.inl hx
        · obtain rfl := List.mem_singleton.mp hx
          exact Or.inr rfl
      · exact Or.inr hx

/-- The IN handler reads on, and leaves the control bytes of the other
endpoints. -/
theorem inHandler_frame (h : s.inHandler = .ok s') :
    s.reads ⊆ s'.reads ∧ s'.epCtrl = s.epCtrl := by
  by_cases hcode : s.setupReqCode = 0x06
  · rw [inHandler_descr hcode] at h
    obtain ⟨s1, hcopy, rfl⟩ := map_ok h
    obtain ⟨data, -, rfl⟩ := copyDescr_inv hcopy
    exact ⟨List.subset_append_left _ _, rfl⟩
  · unfold inHandler at h
    split at h
    · next hc => exact absurd (BitVec.eq_of_toNat_eq hc) hcode
    all_goals
      obtain rfl := Except.ok.inj h
      exact ⟨List.Subset.refl _, rfl⟩

/-- Reads are only added, and the other endpoints stay. -/
theorem tokens_frame : ∀ n {s s' : Ep0} {ps : List (List Byte)}, tokens n s = .ok (s', ps) →
    s.reads ⊆ s'.reads ∧ s'.epCtrl = s.epCtrl := by
  intro n
  induction n with
  | zero =>
    rintro s s' ps h
    cases h
    exact ⟨List.Subset.refl _, rfl⟩
  | succ n ih =>
    intro s s' ps h
    by_cases hacks : s.Acks
    · obtain ⟨s1, qs, hs1, hrest, -⟩ := tokens_inv hacks h
      obtain ⟨hreads, hctrl⟩ := inHandler_frame hs1
      obtain ⟨hreads', hctrl'⟩ := ih hrest
      exact ⟨List.Subset.trans hreads hreads', hctrl'.trans hctrl⟩
    · rw [tokens_not hacks] at h
      cases h
      exact ⟨List.Subset.refl _, rfl⟩

end Ep0

end Ch583Kbd.Usb
