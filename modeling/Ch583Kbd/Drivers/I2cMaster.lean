/-
Ch583Kbd.Drivers.I2cMaster — the I2C transfer of the LED drivers
(`DRIVERS/iic/i2c_master.c`).

The bus is what the successive reads of each status flag return. The
loop over the bytes reads `I2C_FLAG_TXE` once for each of them and goes on
whatever it says, and counts them in a `uint8_t`: `i2cTransmit_iff` says
when all of them are sent.
-/

namespace Ch583Kbd.Drivers

/-- What the reads of a flag return, in order; it is set again and again. -/
structure PolledFlag where
  read : Nat → Bool
  recurs : ∀ n, ∃ m, n ≤ m ∧ read m = true

/-- The flags that a transfer polls; `idle` is a clear `I2C_FLAG_BUSY`. -/
structure FlagPattern where
  idle : PolledFlag
  masterModeSelect : PolledFlag
  transmitterModeSelected : PolledFlag
  txe : PolledFlag
  byteTransmitted : PolledFlag

/-- What the controller is told to put on the bus. -/
inductive I2cEvent where
  | start
  | address (byte : BitVec 8)
  | data (byte : BitVec 8)
  | stop
  deriving DecidableEq, Repr

namespace I2cEvent

/-- The byte handed to `I2C_SendData`. -/
def sent? : I2cEvent → Option (BitVec 8)
  | data byte => some byte
  | _ => none

end I2cEvent

/-- `while (!flag);` from the `n`th read on. -/
def poll (flag : PolledFlag) : (fuel n : Nat) → Option Unit
  | 0, _ => none
  | fuel + 1, n => if flag.read n then some () else poll flag fuel (n + 1)

variable (p : FlagPattern)

def i2cStart (fuel : Nat) : Option (List I2cEvent) := do
  poll p.idle fuel 0
  return [.start]

def i2cStop (fuel : Nat) : Option (List I2cEvent) := do
  poll p.byteTransmitted fuel 0
  return [.stop]

/-- `I2C_Send7bitAddress` in the direction of the transmitter. -/
def i2cSend7bitAddress (address : BitVec 8) : List I2cEvent := [.address (address &&& 0xFE)]

/-- The loop of `i2c_transmit` over the bytes, with the `n`th read of
`I2C_FLAG_TXE` next. -/
def sendLoop (data : Nat → BitVec 8) (length : BitVec 16) :
    (fuel : Nat) → (i : BitVec 8) → (n : Nat) → Option (List I2cEvent)
  | 0, _, _ => none
  | fuel + 1, i, n =>
    if i.toNat < length.toNat then do
      let rest ← sendLoop data length fuel (i + 1) (n + 1)
      return if p.txe.read n then .data (data i.toNat) :: rest else rest
    else some []

/-- The status that is returned, and what went to the bus. -/
def i2cTransmit (address : BitVec 8) (data : Nat → BitVec 8) (length : BitVec 16) (fuel : Nat) :
    Option (BitVec 8 × List I2cEvent) := do
  let started ← i2cStart p fuel
  poll p.masterModeSelect fuel 0
  poll p.transmitterModeSelected fuel 0
  let sent ← sendLoop p data length fuel 0 0
  let stopped ← i2cStop p fuel
  return (0, started ++ i2cSend7bitAddress address ++ sent ++ stopped)

/-- Between START and STOP exactly these bytes are handed over. -/
def SentBetween (events : List I2cEvent) (bytes : List (BitVec 8)) : Prop :=
  ∃ body, events = .start :: (body ++ [.stop]) ∧ body.filterMap I2cEvent.sent? = bytes

/-- The transfer ends, and has sent the bytes of its buffer in order, each
of them once. -/
def Transmits (address : BitVec 8) (data : Nat → BitVec 8) (length : BitVec 16) : Prop :=
  ∃ fuel result, i2cTransmit p address data length fuel = some result ∧
    SentBetween result.2 ((List.range length.toNat).map data)

/-! ## Polling -/

/-- A poll ends when the flag is read as set within the fuel. -/
theorem poll_of_read (flag : PolledFlag) {n d fuel : Nat} (hset : flag.read (n + d) = true)
    (hfuel : d < fuel) : poll flag fuel n = some () := by
  induction fuel generalizing n d with
  | zero => omega
  | succ fuel ih =>
    rw [poll]
    split
    · rfl
    · cases d with
      | zero => contradiction
      | succ d =>
        have hnext : n + 1 + d = n + (d + 1) := by omega
        exact ih (hnext ▸ hset) (by omega)

/-- Every poll ends, for all fuel from some bound on. -/
theorem poll_ends (flag : PolledFlag) : ∃ bound, ∀ fuel, bound ≤ fuel →
    poll flag fuel 0 = some () := by
  obtain ⟨m, -, hset⟩ := flag.recurs 0
  refine ⟨m + 1, fun fuel hfuel => ?_⟩
  exact poll_of_read flag ((Nat.zero_add m).symm ▸ hset) hfuel

/-! ## The loop over the bytes -/

/-- The bytes from the `n`th on whose read of the flag finds it set. -/
def readyFrom (length n : Nat) : List Nat :=
  (List.range' n (length - n)).filter p.txe.read

/-- The reads at which `TXE` is set, one read at a time. -/
theorem readyFrom_of_lt {length n : Nat} (hlt : n < length) :
    readyFrom p length n =
      if p.txe.read n then n :: readyFrom p length (n + 1) else readyFrom p length (n + 1) := by
  have hlen : length - n = length - (n + 1) + 1 := by omega
  rw [readyFrom, hlen, List.range'_succ, List.filter_cons, readyFrom]

/-- Where the counter reaches the length, the loop ends after as many turns. -/
theorem sendLoop_short (data : Nat → BitVec 8) {length : BitVec 16} (hlen : length.toNat ≤ 255)
    {n : Nat} (hn : n ≤ length.toNat) (fuel : Nat) :
    sendLoop p data length fuel (BitVec.ofNat 8 n) n =
      if length.toNat - n < fuel then
        some ((readyFrom p length.toNat n).map fun k => .data (data k))
      else none := by
  induction fuel generalizing n with
  | zero => rfl
  | succ fuel ih =>
    have hi : (BitVec.ofNat 8 n).toNat = n := by
      rw [BitVec.toNat_ofNat]
      omega
    rw [sendLoop, hi]
    split
    case isTrue hlt =>
      have hnext : BitVec.ofNat 8 n + 1 = BitVec.ofNat 8 (n + 1) := BitVec.ofNat_add_ofNat n 1
      rw [hnext, ih (by omega), readyFrom_of_lt p hlt]
      by_cases hfuel : length.toNat - (n + 1) < fuel
      · rw [if_pos hfuel, if_pos (by omega)]
        split <;> rfl
      · rw [if_neg hfuel, if_neg (by omega)]
        rfl
    case isFalse hge =>
      have hdone : length.toNat - n = 0 := by omega
      rw [readyFrom, hdone, if_pos (Nat.succ_pos fuel)]
      rfl

/-- A length beyond the counter's range does not end it. -/
theorem sendLoop_long (data : Nat → BitVec 8) {length : BitVec 16} (hlen : 256 ≤ length.toNat)
    (fuel : Nat) (i : BitVec 8) (n : Nat) : sendLoop p data length fuel i n = none := by
  induction fuel generalizing i n with
  | zero => rfl
  | succ fuel ih =>
    have hi := i.isLt
    rw [sendLoop, if_pos (by omega), ih]
    rfl

/-! ## A transfer -/

/-- A transfer that ends sent what its loop sent. -/
theorem i2cTransmit_some {address : BitVec 8} {data : Nat → BitVec 8} {length : BitVec 16}
    {fuel : Nat} {result : BitVec 8 × List I2cEvent}
    (h : i2cTransmit p address data length fuel = some result) :
    ∃ sent, sendLoop p data length fuel 0 0 = some sent ∧
      result = (0, .start :: (.address (address &&& 0xFE) :: sent ++ [.stop])) := by
  simp only [i2cTransmit, i2cStart, i2cStop, Option.bind_eq_bind, Option.pure_def,
    Option.bind_eq_some_iff, Option.some.injEq] at h
  obtain ⟨_, ⟨-, -, rfl⟩, -, -, -, -, sent, hsent, _, ⟨-, -, rfl⟩, rfl⟩ := h
  exact ⟨sent, hsent, rfl⟩

/-- Up to 255 bytes, `i2c_transmit` returns with enough fuel. -/
theorem i2cTransmit_ends (address : BitVec 8) (data : Nat → BitVec 8) {length : BitVec 16}
    (hlen : length.toNat ≤ 255) : ∃ fuel result,
      i2cTransmit p address data length fuel = some result := by
  obtain ⟨idle, hidle⟩ := poll_ends p.idle
  obtain ⟨master, hmaster⟩ := poll_ends p.masterModeSelect
  obtain ⟨selected, hselected⟩ := poll_ends p.transmitterModeSelected
  obtain ⟨transmitted, htransmitted⟩ := poll_ends p.byteTransmitted
  obtain ⟨fuel, hidle', hmaster', hselected', htransmitted', hlong⟩ : ∃ fuel, idle ≤ fuel ∧
      master ≤ fuel ∧ selected ≤ fuel ∧ transmitted ≤ fuel ∧ 256 ≤ fuel :=
    ⟨idle + master + selected + transmitted + 256, by omega, by omega, by omega, by omega,
      by omega⟩
  have hloop : sendLoop p data length fuel 0 0 = some _ :=
    (sendLoop_short p data hlen (Nat.zero_le _) fuel).trans (if_pos (by omega))
  refine ⟨fuel, ?_⟩
  simp only [i2cTransmit, i2cStart, i2cStop, hidle fuel hidle', hmaster fuel hmaster',
    hselected fuel hselected', htransmitted fuel htransmitted', hloop, Option.bind_eq_bind,
    Option.bind_some, Option.pure_def]
  exact ⟨_, rfl⟩

/-- The bytes handed over in a transfer that ends. -/
theorem sentBetween_iff (address : BitVec 8) (data : Nat → BitVec 8) (sent : List Nat)
    (bytes : List (BitVec 8)) :
    SentBetween (.start :: (.address address :: (sent.map fun k => .data (data k)) ++ [.stop]))
      bytes ↔ sent.map data = bytes := by
  have hfilter : (I2cEvent.address address :: sent.map fun k => .data (data k)).filterMap
      I2cEvent.sent? = sent.map data := by
    rw [List.filterMap_cons_none rfl, List.filterMap_map]
    exact congrFun List.filterMap_eq_map sent
  constructor
  · rintro ⟨body, hevents, rfl⟩
    have hbody := List.append_cancel_right (List.cons_inj_right _ |>.mp hevents)
    rw [← hbody, hfilter]
  · rintro rfl
    exact ⟨_, rfl, hfilter⟩

/-- From 256 bytes on the `uint8_t` index never reaches the length. -/
theorem not_transmits_long (address : BitVec 8) (data : Nat → BitVec 8) {length : BitVec 16}
    (hlen : 256 ≤ length.toNat) : ¬Transmits p address data length := by
  rintro ⟨fuel, result, hrun, -⟩
  obtain ⟨sent, hloop, -⟩ := i2cTransmit_some p hrun
  rw [sendLoop_long p data hlen] at hloop
  cases hloop

/-- A transfer of a length that is reached sends the bytes whose read of
the flag finds it set, and no others. -/
theorem transmits_short (address : BitVec 8) (data : Nat → BitVec 8) {length : BitVec 16}
    (hlen : length.toNat ≤ 255) : Transmits p address data length ↔
      ((List.range length.toNat).filter p.txe.read).map data =
        (List.range length.toNat).map data := by
  have hready : readyFrom p length.toNat 0 = (List.range length.toNat).filter p.txe.read := by
    rw [readyFrom, List.range_eq_range', Nat.sub_zero]
  have hevents : ∀ {fuel result}, i2cTransmit p address data length fuel = some result →
      (SentBetween result.2 ((List.range length.toNat).map data) ↔
        ((List.range length.toNat).filter p.txe.read).map data =
          (List.range length.toNat).map data) := by
    intro fuel result hrun
    obtain ⟨sent, hloop, rfl⟩ := i2cTransmit_some p hrun
    have hshort := sendLoop_short p data hlen (Nat.zero_le _) fuel
    rw [hready] at hshort
    split at hshort
    · obtain rfl := Option.some.inj (hloop.symm.trans hshort)
      exact sentBetween_iff _ data _ _
    · exact nomatch hloop.symm.trans hshort
  constructor
  · rintro ⟨fuel, result, hrun, hsent⟩
    exact (hevents hrun).mp hsent
  · intro h
    obtain ⟨fuel, result, hrun⟩ := i2cTransmit_ends p address data hlen
    exact ⟨fuel, result, hrun, (hevents hrun).mpr h⟩

/-- **I2C transmit.** The bytes are all sent, each of them once, exactly
where the counter reaches the length and `I2C_FLAG_TXE` is set whenever it
is read. -/
theorem i2cTransmit_iff (address : BitVec 8) (data : Nat → BitVec 8) (length : BitVec 16) :
    Transmits p address data length ↔
      length.toNat ≤ 255 ∧ ∀ n < length.toNat, p.txe.read n = true := by
  by_cases hlen : length.toNat ≤ 255
  · rw [transmits_short p address data hlen, and_iff_right hlen]
    constructor
    · intro h n hn
      have hall := congrArg List.length h
      rw [List.length_map, List.length_map, List.length_filter_eq_length_iff] at hall
      exact hall n (List.mem_range.mpr hn)
    · intro h
      rw [List.filter_eq_self.mpr fun n hn => h n (List.mem_range.mp hn)]
  · exact iff_of_false (not_transmits_long p address data (by omega)) fun h => hlen h.1

/-- A flag that always is set. -/
def PolledFlag.set : PolledFlag := ⟨fun _ => true, fun n => ⟨n, Nat.le_refl n, rfl⟩⟩

/-- A flag that is clear at its first read only. -/
def PolledFlag.late : PolledFlag :=
  ⟨fun n => n != 0, fun n => ⟨n + 1, Nat.le_succ n, rfl⟩⟩

/-- The one byte of a transfer is lost if the transmitter is not empty yet. -/
theorem i2cTransmit_loses_byte :
    ¬Transmits ⟨.set, .set, .set, .late, .set⟩ 0xA0 (fun _ => 0x55) 1 := by
  rw [transmits_short _ _ _ (by decide)]
  decide

end Ch583Kbd.Drivers
