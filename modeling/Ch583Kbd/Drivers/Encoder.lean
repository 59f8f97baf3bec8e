/-
Ch583Kbd.Drivers.Encoder — the rotary encoder
(`DRIVERS/ENCODER/encoder.c`).

Its position and the position it last told of are eight bits wide, and
their order gives the direction. `directed_iff` says at which positions
that still is the direction of the turn.
-/
import Mathlib.Data.List.Induction

namespace Ch583Kbd.Drivers

structure EncoderState where
  count : BitVec 8 := 0
  lastCount : BitVec 8 := 0
  deriving DecidableEq, Repr

/-- `send_event_message` of the handler. -/
inductive EncoderEvent where
  | left
  | right
  deriving DecidableEq, Repr

/-- `nrfx_qdec_event_t`. -/
inductive QdecEvent where
  | reportReady (acc : Int)
  | other
  deriving DecidableEq, Repr

def decoderEventHandler (s : EncoderState) : QdecEvent → EncoderState × Option EncoderEvent
  | .reportReady acc =>
    let count := s.count + BitVec.ofInt 8 acc
    if acc ≠ 0 ∧ count.toInt.tmod 4 = 0 then
      ({ count := count, lastCount := count },
        some (if s.lastCount.toInt < count.toInt then .left else .right))
    else ({ s with count := count }, none)
  | .other => (s, none)

/-! ## Runs of reports -/

/-- The handler's state, and the sum of the reports since its last event. -/
structure Turned where
  state : EncoderState := {}
  net : Int := 0

def Turned.report (t : Turned) (acc : Int) : Turned :=
  let (state, event) := decoderEventHandler t.state (.reportReady acc)
  { state := state, net := if event.isSome then 0 else t.net + acc }

def turn (accs : List Int) : Turned := accs.foldl Turned.report {}

/-- What is sent at a report that follows others. -/
def eventAt (past : List Int) (acc : Int) : Option EncoderEvent :=
  (decoderEventHandler (turn past).state (.reportReady acc)).2

/-- Each event tells the direction of the turn since the one before. -/
structure Directed (accs : List Int) : Prop where
  left : ∀ past acc, past ++ [acc] <+: accs → eventAt past acc = some .left →
    0 < (turn past).net + acc
  right : ∀ past acc, past ++ [acc] <+: accs → eventAt past acc = some .right →
    (turn past).net + acc < 0
  none : ∀ past acc, past ++ [acc] <+: accs → (turn past).net + acc = 0 →
    eventAt past acc = none

/-! ## True positions -/

/-- The sum of all reports, and what it was at the last detent: at the last
report that was not 0 and ended at a multiple of four. -/
structure Position where
  total : Int := 0
  detent : Int := 0
  deriving DecidableEq, Repr

def Position.report (p : Position) (acc : Int) : Position where
  total := p.total + acc
  detent := if acc ≠ 0 ∧ 4 ∣ p.total + acc then p.total + acc else p.detent

def position (accs : List Int) : Position := accs.foldl Position.report {}

/-- How often the count has wrapped where the sum is `x`. -/
def lap (x : Int) : Int := (x + 128) / 256

/-- From `last` to `total` the sum does not stay, and the laps between them
do not turn the order of the counts around. -/
def KeepsOrder (last total : Int) : Prop :=
  last < total ∧ 256 * (lap total - lap last) < total - last ∨
    total < last ∧ total - last ≤ 256 * (lap total - lap last)

/-! ## The count -/

/-- The `int8_t` counter reads `x` less the laps of 256 in it. -/
theorem toInt_count (x : Int) : (BitVec.ofInt 8 x).toInt = x - 256 * lap x := by
  rw [BitVec.toInt_ofInt, Int.bmod_def, lap]
  omega

/-- A lap is a whole number of detents, so the wrapped counter is at one exactly
when the position is. -/
theorem count_detent (x : Int) : (BitVec.ofInt 8 x).toInt.tmod 4 = 0 ↔ 4 ∣ x := by
  rw [← Int.dvd_iff_tmod_eq_zero, toInt_count]
  omega

theorem count_add (x y : Int) : BitVec.ofInt 8 x + BitVec.ofInt 8 y = BitVec.ofInt 8 (x + y) :=
  (BitVec.ofInt_add x y).symm

/-- One call of the handler moves the wrapped counters as `Position.report`
moves the position, and sends a key when that ends on a detent. -/
theorem decoderEventHandler_position (p : Position) (acc : Int) :
    decoderEventHandler ⟨BitVec.ofInt 8 p.total, BitVec.ofInt 8 p.detent⟩ (.reportReady acc) =
      (⟨BitVec.ofInt 8 (p.report acc).total, BitVec.ofInt 8 (p.report acc).detent⟩,
        if acc ≠ 0 ∧ 4 ∣ p.total + acc then
          some (if p.detent - 256 * lap p.detent < p.total + acc - 256 * lap (p.total + acc)
            then .left else .right)
        else none) := by
  simp only [decoderEventHandler, count_add, count_detent, Position.report]
  split
  · rw [toInt_count, toInt_count]
  · rfl

/-- The handler's counts are the position, modulo their width. -/
theorem turn_eq (accs : List Int) :
    turn accs =
      { state := ⟨BitVec.ofInt 8 (position accs).total, BitVec.ofInt 8 (position accs).detent⟩
        net := (position accs).total - (position accs).detent } := by
  induction accs using List.reverseRecOn with
  | nil => rfl
  | append_singleton past acc ih =>
    have hturn : turn (past ++ [acc]) = (turn past).report acc := by
      rw [turn, List.foldl_append]
      rfl
    have hposition : position (past ++ [acc]) = (position past).report acc := by
      rw [position, List.foldl_append]
      rfl
    rw [hturn, hposition, ih, Turned.report, decoderEventHandler_position]
    simp only [Position.report]
    split
    · simp
    · simp
      omega

/-- The event after `past` in terms of the position: it compares the wrapped
counters, so whole laps decide its direction. -/
theorem eventAt_eq (past : List Int) (acc : Int) :
    eventAt past acc =
      if acc ≠ 0 ∧ 4 ∣ (position past).total + acc then
        some (if (position past).detent - 256 * lap (position past).detent <
            (position past).total + acc - 256 * lap ((position past).total + acc)
          then .left else .right)
      else none := by
  rw [eventAt, turn_eq, decoderEventHandler_position]

/-- An event tells the direction exactly where the laps keep the order. -/
theorem keepsOrder_iff (last total : Int) :
    KeepsOrder last total ↔
      if last - 256 * lap last < total - 256 * lap total then last < total else total < last := by
  rw [KeepsOrder]
  split <;> omega

/-- **The encoder's direction.** All events of a run tell it exactly where
each detent that is told of lies in the order of the counts where it lies
in that of the true sums. -/
theorem directed_iff (accs : List Int) :
    Directed accs ↔ ∀ past acc, past ++ [acc] <+: accs →
      acc ≠ 0 → 4 ∣ (position past).total + acc →
      KeepsOrder (position past).detent ((position past).total + acc) := by
  have hnet : ∀ past acc, (turn past).net + acc =
      (position past).total + acc - (position past).detent := by
    intro past acc
    rw [turn_eq]
    dsimp only
    omega
  constructor
  · intro h past acc hpast hacc hdetent
    have hevent := eventAt_eq past acc
    rw [if_pos ⟨hacc, hdetent⟩] at hevent
    rw [keepsOrder_iff]
    split
    case isTrue hlt =>
      rw [if_pos hlt] at hevent
      have hleft := h.left past acc hpast hevent
      rw [hnet] at hleft
      omega
    case isFalse hge =>
      rw [if_neg hge] at hevent
      have hright := h.right past acc hpast hevent
      rw [hnet] at hright
      omega
  · intro h
    -- what an event says about the two positions; each direction reads one side
    have hevent : ∀ past acc event, past ++ [acc] <+: accs → eventAt past acc = some event →
        if event = .left then (position past).detent < (position past).total + acc
        else (position past).total + acc < (position past).detent := by
      intro past acc event hpast hsent
      rw [eventAt_eq] at hsent
      split at hsent
      case isFalse => cases hsent
      case isTrue hdue =>
        have hkeeps := (keepsOrder_iff _ _).mp (h past acc hpast hdue.1 hdue.2)
        obtain rfl := Option.some.inj hsent
        split at hkeeps
        case isTrue hlt => rw [if_pos hlt]; exact hkeeps
        case isFalse hge => rw [if_neg hge]; exact hkeeps
    constructor
    case left =>
      intro past acc hpast hsent
      have hlt := hevent past acc .left hpast hsent
      rw [if_pos rfl] at hlt
      rw [hnet]
      omega
    case right =>
      intro past acc hpast hsent
      have hlt := hevent past acc .right hpast hsent
      rw [if_neg (by decide)] at hlt
      rw [hnet]
      omega
    case none =>
      intro past acc hpast hzero
      rw [hnet] at hzero
      cases hsent : eventAt past acc with
      | none => rfl
      | some event =>
        have hlt := hevent past acc event hpast hsent
        split at hlt <;> omega

/-- Back at the detent it left, a turn is told to the right; and so is one
to the left from 120 to 128. -/
theorem encoder_wrong_direction :
    ¬Directed [1, -1] ∧ ¬Directed (List.replicate 42 3 ++ [2]) := by
  constructor
  · intro h
    exact absurd (h.right [1] (-1) (List.prefix_refl _) (by decide)) (by decide)
  · intro h
    exact absurd (h.right (List.replicate 42 3) 2 (List.prefix_refl _) (by decide +kernel))
      (by decide +kernel)

end Ch583Kbd.Drivers
