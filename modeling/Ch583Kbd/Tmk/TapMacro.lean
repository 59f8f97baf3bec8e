/-
Ch583Kbd.Tmk.TapMacro — playing a macro two commands at a time
(`action_tapmacro_play`).

The caller hands back the index it was given; a time stamp decides
whether the call goes on there or starts again. The index has 8 bits and
the stamp's age is what `timer_elapsed32` says it is, so long macros and
calls in one tick start again when they should go on:
`stepwise_iff` is exact about both.
-/
import Ch583Kbd.Drivers.KeyboardTimer
import Ch583Kbd.Tmk.ActionMacro
import Mathlib.Tactic.ByContra

namespace Ch583Kbd.Tmk

open Drivers

/-- The bytes from `macro_p` on. -/
abbrev MacroMemory := Nat → BitVec 8

/-- `TIMER_INTERVAL`. -/
def timerInterval : BitVec 32 := 2000

/-- One turn of the loop: the calls and the index behind the command, or
none where the function returns 0. -/
def tapStep (mem : MacroMemory) (number : BitVec 8) : Option (List MacroCall × BitVec 8) :=
  let opcode := mem number.toNat
  let number := number + 1
  let code := mem number.toNat
  if opcode = macroKeyDown then some (keyDownCalls code ++ [.wait delayTime], number + 1)
  else if opcode = macroKeyUp then some (keyUpCalls code ++ [.wait delayTime], number + 1)
  else none

/-- The function from its loop on: its calls and what it returns. -/
def tapFrom (mem : MacroMemory) (number : BitVec 8) : List MacroCall × BitVec 8 :=
  match tapStep mem number with
  | none => ([], 0)
  | some (calls, number) =>
    match tapStep mem number with
    | none => (calls, 0)
    | some (calls', number) =>
      if mem number.toNat = macroEnd then (calls ++ calls', 0)
      else (calls ++ calls', number + 1 - 1)

/-- The index at which a call starts: the one it was given, within the interval. -/
def startNumber (tick timersCount : BitVec 32) (number : BitVec 8) : BitVec 8 :=
  if number = 0 then 0
  else if timerElapsed32 tick timersCount < timerInterval then number
  else 0

/-- What a call leaves in `timers_count`, what it did and what it returns. -/
structure TapPlay where
  timersCount : BitVec 32
  calls : List MacroCall
  number : BitVec 8
  deriving DecidableEq

/-- `action_tapmacro_play` at `tick`; the null pointer is `none`. -/
def actionTapmacroPlay (mem : Option MacroMemory) (tick timersCount : BitVec 32)
    (number : BitVec 8) : TapPlay :=
  match mem with
  | none => ⟨tick, [], 0⟩
  | some mem =>
    let play := tapFrom mem (startNumber tick timersCount number)
    ⟨tick, play.1, play.2⟩

/-- The first call at `tick`, and one more after every gap, each with the
index that the one before returned. -/
def playback (mem : MacroMemory) (tick timersCount : BitVec 32) (number : BitVec 8) :
    List (Fin 2000) → List TapPlay
  | [] => [actionTapmacroPlay (some mem) tick timersCount number]
  | gap :: gaps =>
    let call := actionTapmacroPlay (some mem) tick timersCount number
    call :: playback mem (laterTick tick gap.val) call.timersCount call.number gaps

/-! ## Macros of keys -/

inductive MacroKey where
  | down (code : BitVec 8)
  | up (code : BitVec 8)
  deriving DecidableEq

namespace MacroKey

def command : MacroKey → MacroCommand
  | down code => .keyDown code
  | up code => .keyUp code

def opcode : MacroKey → BitVec 8
  | down _ => macroKeyDown
  | up _ => macroKeyUp

def code : MacroKey → BitVec 8
  | down code | up code => code

theorem encode_command (key : MacroKey) : key.command.encode = [key.opcode, key.code] := by
  cases key <;> rfl

theorem opcode_ne_end (key : MacroKey) : key.opcode ≠ macroEnd := by
  cases key
  · exact (by decide : macroKeyDown ≠ macroEnd)
  · exact (by decide : macroKeyUp ≠ macroEnd)

end MacroKey

/-- The commands of one call. -/
abbrev MacroPair := MacroKey × MacroKey

namespace MacroPair

def commands (p : MacroPair) : List MacroCommand := [p.1.command, p.2.command]

def calls (p : MacroPair) : List MacroCall := p.1.command.calls ++ p.2.command.calls

def bytes (p : MacroPair) : List (BitVec 8) :=
  [p.1.opcode, p.1.code, p.2.opcode, p.2.code]

/-- The commands of a pair are encoded as its four bytes. -/
theorem flatMap_encode (p : MacroPair) : p.commands.flatMap MacroCommand.encode = p.bytes := by
  simp [commands, bytes, MacroKey.encode_command]

/-- The commands of a pair make its calls. -/
theorem flatMap_calls (p : MacroPair) : p.commands.flatMap MacroCommand.calls = p.calls := by
  simp [commands, calls]

end MacroPair

/-- The memory at a macro of the pairs, before whatever `rest` holds. -/
def macroMemory (pairs : List MacroPair) (rest : MacroMemory) : MacroMemory := fun i =>
  (pairs.flatMap MacroPair.bytes ++ [macroEnd]).getD i (rest i)

/-- A macro has four bytes for each pair. -/
theorem length_flatMap_bytes (pairs : List MacroPair) :
    (pairs.flatMap MacroPair.bytes).length = 4 * pairs.length := by
  induction pairs with
  | nil => rfl
  | cons p pairs ih =>
    rw [List.flatMap_cons, List.length_append, ih, List.length_cons]
    show 4 + _ = _
    omega

/-- Behind the pairs that are done stand the bytes of those to come. -/
theorem macroMemory_append (done todo : List MacroPair) (rest : MacroMemory) (i : Nat)
    (hi : i < (todo.flatMap MacroPair.bytes ++ [macroEnd]).length) :
    macroMemory (done ++ todo) rest (4 * done.length + i) =
      (todo.flatMap MacroPair.bytes ++ [macroEnd])[i] := by
  rw [macroMemory, List.flatMap_append, List.append_assoc, List.getD_eq_getElem?_getD,
    List.getElem?_append_right (by rw [length_flatMap_bytes]; omega), length_flatMap_bytes,
    Nat.add_sub_cancel_left, List.getElem?_eq_getElem hi]
  rfl

/-! ## One call -/

theorem ofNat_toNat_of_lt {n : Nat} (hn : n < 256) : (BitVec.ofNat 8 n).toNat = n := by
  rw [BitVec.toNat_ofNat]
  exact Nat.mod_eq_of_lt hn

/-- A step of the macro performs the command it points at, while its index does
not wrap. -/
theorem tapStep_key {mem : MacroMemory} (key : MacroKey) {n : Nat} (hn : n + 1 < 256)
    (hopcode : mem n = key.opcode) (hcode : mem (n + 1) = key.code) :
    tapStep mem (BitVec.ofNat 8 n) = some (key.command.calls, BitVec.ofNat 8 (n + 2)) := by
  have hnext : BitVec.ofNat 8 n + 1 = BitVec.ofNat 8 (n + 1) :=
    (BitVec.ofNat_add n 1).symm
  have hlast : BitVec.ofNat 8 (n + 1) + 1 = BitVec.ofNat 8 (n + 2) :=
    (BitVec.ofNat_add (n + 1) 1).symm
  rw [tapStep, hnext, hlast, ofNat_toNat_of_lt (by omega), ofNat_toNat_of_lt hn, hopcode, hcode]
  cases key with
  | down code =>
    rw [keyDownCalls_wait]
    rfl
  | up code =>
    rw [keyUpCalls_wait]
    rfl

/-- A call that starts at the `k`th pair plays it. -/
theorem tapFrom_pair {mem : MacroMemory} {p : MacroPair} {k : Nat} (hk : k < 64)
    (hmem : ∀ i (hi : i < 4), mem (4 * k + i) = p.bytes[i]) :
    tapFrom mem (BitVec.ofNat 8 (4 * k)) =
      (p.calls, if mem (BitVec.ofNat 8 (4 * (k + 1))).toNat = macroEnd then 0
        else BitVec.ofNat 8 (4 * (k + 1))) := by
  have hfirst := tapStep_key p.1 (n := 4 * k) (by omega) (hmem 0 (by omega))
    (hmem 1 (by omega))
  have hsecond := tapStep_key p.2 (n := 4 * k + 2) (by omega) (hmem 2 (by omega))
    (hmem 3 (by omega))
  have hback : ∀ number : BitVec 8, number + 1 - 1 = number := fun number =>
    BitVec.add_sub_cancel number 1
  rw [tapFrom, hfirst]
  dsimp only
  rw [hsecond, Nat.mul_succ]
  dsimp only
  rw [hback]
  split
  · rfl
  · rfl

/-- A gap of less than the interval starts no new tap, except a gap of no tick
at all. -/
theorem timerElapsed32_gap (t : BitVec 32) (gap : Fin 2000) :
    timerElapsed32 (laterTick t gap.val) t < timerInterval ↔ gap.val ≠ 0 := by
  have ht := t.isLt
  have hgap := gap.isLt
  rw [BitVec.lt_def, timerElapsed32_toNat, laterTick_toNat,
    show timerInterval.toNat = 2000 from rfl]
  by_cases hwrap : t.toNat + gap.val < 4294967296
  · rw [Nat.mod_eq_of_lt hwrap]
    split <;> omega
  · have hlater : (t.toNat + gap.val) % 4294967296 = t.toNat + gap.val - 4294967296 := by omega
    rw [hlater, if_neg (by omega)]
    omega

/-- Only a call in the tick of the one before starts again. -/
theorem startNumber_gap (t : BitVec 32) (gap : Fin 2000) (number : BitVec 8) :
    startNumber (laterTick t gap.val) t number = if gap.val = 0 then 0 else number := by
  rw [startNumber]
  by_cases hgap : gap.val = 0
  · rw [if_pos hgap, if_neg fun h => (timerElapsed32_gap t gap).mp h hgap, ite_self]
  · rw [if_neg hgap, if_pos ((timerElapsed32_gap t gap).mpr hgap)]
    split
    · next h => exact h.symm
    · rfl

/-! ## Whole playbacks -/

/-- Calls of two commands each, the last of which returns 0. -/
def stepwise : List MacroPair → List (List MacroCall × Bool)
  | [] => [([], true)]
  | [p] => [(p.calls, true)]
  | p :: q :: todo => (p.calls, false) :: stepwise (q :: todo)

/-- What a call shows to its caller: what it did, and whether it is 0. -/
def TapPlay.shown (call : TapPlay) : List MacroCall × Bool := (call.calls, call.number == 0)

/-- One call for every two commands, or one for a macro of none: each
plays the next two commands, the last one and no other returns 0, and
together they play the macro. -/
def Stepwise (tick : BitVec 32) (gaps : List (Fin 2000)) (pairs : List MacroPair) : Prop :=
  ∀ rest timersCount tail,
    (playback (macroMemory pairs rest) tick timersCount 0 gaps).map TapPlay.shown =
        stepwise pairs ∧
      playMacro ((pairs.flatMap MacroPair.commands).flatMap MacroCommand.encode ++
          macroEnd :: tail) =
        some ((playback (macroMemory pairs rest) tick timersCount 0 gaps).flatMap (·.calls), tail)

section Playback

variable {pairs done todo : List MacroPair} {p : MacroPair} (rest : MacroMemory)

/-- The bytes of a pair stand at its place in the macro. -/
theorem mem_pair (hpairs : pairs = done ++ p :: todo) (i : Nat) (hi : i < 4) :
    macroMemory pairs rest (4 * done.length + i) = p.bytes[i] := by
  have hlen : i < p.bytes.length := hi
  subst hpairs
  rw [macroMemory_append done (p :: todo) rest i (by simp; omega)]
  simp only [List.flatMap_cons, List.append_assoc]
  exact List.getElem_append_left hlen

/-- Behind the last pair stands `END`. -/
theorem mem_end (hpairs : pairs = done ++ [p]) :
    macroMemory pairs rest (4 * (done.length + 1)) = macroEnd := by
  have h := macroMemory_append (done ++ [p]) [] rest 0 (by simp)
  rw [List.append_nil, List.length_append] at h
  subst hpairs
  exact h

/-- What the call that plays `p` returns. -/
def returned (mem : MacroMemory) (k : Nat) : BitVec 8 :=
  if mem (BitVec.ofNat 8 (4 * (k + 1))).toNat = macroEnd then 0 else BitVec.ofNat 8 (4 * (k + 1))

/-- The sixty-fourth pair ends the tap: the index wraps to zero. -/
theorem returned_full {mem : MacroMemory} {k : Nat} (hk : k + 1 = 64) : returned mem k = 0 := by
  rw [returned, hk]
  exact ite_self 0

/-- The last pair ends the tap. -/
theorem returned_last (hpairs : pairs = done ++ [p]) (hk : done.length < 64) :
    returned (macroMemory pairs rest) done.length = 0 := by
  by_cases hfull : done.length + 1 = 64
  · exact returned_full hfull
  · rw [returned, ofNat_toNat_of_lt (by omega), mem_end rest hpairs, if_pos rfl]

/-- A pair before the last one answers the index of the next. -/
theorem returned_next {q : MacroPair} (hpairs : pairs = done ++ p :: q :: todo)
    (hk : done.length + 1 < 64) :
    returned (macroMemory pairs rest) done.length = BitVec.ofNat 8 (4 * (done.length + 1)) := by
  have hpairs' : pairs = (done ++ [p]) ++ q :: todo := by simp [hpairs]
  have hq := mem_pair rest hpairs' 0 (by decide)
  rw [List.length_append] at hq
  have hopcode : macroMemory pairs rest (4 * (done.length + 1)) = q.1.opcode := hq
  rw [returned, ofNat_toNat_of_lt (by omega), hopcode, if_neg q.1.opcode_ne_end]

/-- One call plays the pair its index points at and answers where to go on. -/
theorem call_pair {tick timersCount : BitVec 32} {number : BitVec 8}
    (hpairs : pairs = done ++ p :: todo) (hk : done.length < 64)
    (hstart : startNumber tick timersCount number = BitVec.ofNat 8 (4 * done.length)) :
    actionTapmacroPlay (some (macroMemory pairs rest)) tick timersCount number =
      ⟨tick, p.calls, returned (macroMemory pairs rest) done.length⟩ := by
  rw [actionTapmacroPlay, hstart, tapFrom_pair hk (mem_pair rest hpairs), returned]

/-- In a later tick the next call goes on behind `p`. -/
theorem startNumber_next (done : List MacroPair) (p : MacroPair) (tick : BitVec 32)
    {gap : Fin 2000} (hgap : gap.val ≠ 0) :
    startNumber (laterTick tick gap.val) tick (BitVec.ofNat 8 (4 * (done.length + 1))) =
      BitVec.ofNat 8 (4 * (done ++ [p]).length) := by
  rw [startNumber_gap, if_neg hgap, List.length_append, List.length_singleton]

/-- Without a restart, and with the index in its range, the calls go
through the macro step by step. -/
theorem playback_stepwise {gaps : List (Fin 2000)} {tick timersCount : BitVec 32}
    {number : BitVec 8} (hpairs : pairs = done ++ p :: todo) (hlen : todo.length = gaps.length)
    (hfit : done.length + gaps.length < 64) (hgaps : ∀ gap ∈ gaps, gap.val ≠ 0)
    (hstart : startNumber tick timersCount number = BitVec.ofNat 8 (4 * done.length)) :
    (playback (macroMemory pairs rest) tick timersCount number gaps).map TapPlay.shown =
      stepwise (p :: todo) := by
  induction gaps generalizing done p todo tick timersCount number with
  | nil =>
    obtain rfl := List.eq_nil_of_length_eq_zero hlen
    have hlast := returned_last rest hpairs (by omega)
    rw [playback, call_pair rest hpairs (by omega) hstart, hlast]
    rfl
  | cons gap gaps ih =>
    obtain ⟨q, todo, rfl⟩ := List.exists_cons_of_length_eq_add_one hlen
    rw [List.length_cons] at hlen hfit
    obtain ⟨hgap, hgaps⟩ := List.forall_mem_cons.mp hgaps
    have hnext := returned_next rest hpairs (by omega)
    have hnonzero : BitVec.ofNat 8 (4 * (done.length + 1)) ≠ 0 := by
      intro h
      have hval := congrArg BitVec.toNat h
      rw [ofNat_toNat_of_lt (by omega)] at hval
      simp at hval
    rw [playback, call_pair rest hpairs (by omega) hstart, hnext]
    dsimp only
    have hpairs' : pairs = (done ++ [p]) ++ q :: todo := by simp [hpairs]
    rw [List.map_cons, ih hpairs' (by simpa using hlen) (by simp; omega) hgaps
      (startNumber_next done p tick hgap)]
    rw [stepwise, TapPlay.shown, beq_eq_false_iff_ne.mpr hnonzero]

/-- A call in the tick of the one before, or behind the 64th pair, plays
the first pair. -/
theorem playback_restart {pre post : List (Fin 2000)} {gap : Fin 2000}
    {tick timersCount : BitVec 32} {number : BitVec 8} (hpairs : pairs = done ++ p :: todo)
    (hlen : todo.length = (pre ++ gap :: post).length) (hfit : done.length + pre.length < 64)
    (hpre : ∀ gap ∈ pre, gap.val ≠ 0) (hgap : gap.val = 0 ∨ done.length + pre.length + 1 = 64)
    (hstart : startNumber tick timersCount number = BitVec.ofNat 8 (4 * done.length)) :
    ((playback (macroMemory pairs rest) tick timersCount number
      (pre ++ gap :: post))[pre.length + 1]?).map (·.calls) =
        some (tapFrom (macroMemory pairs rest) 0).1 := by
  induction pre generalizing done p todo tick timersCount number with
  | nil =>
    have hrestart : startNumber (laterTick tick gap.val) tick
        (returned (macroMemory pairs rest) done.length) = 0 := by
      rw [startNumber_gap]
      split
      · rfl
      · next hne => exact returned_full (hgap.resolve_left hne)
    rw [List.nil_append, playback, call_pair rest hpairs hfit hstart]
    cases post with
    | nil => simp [playback, actionTapmacroPlay, hrestart]
    | cons gap' post => simp [playback, actionTapmacroPlay, hrestart]
  | cons gap' pre ih =>
    rw [List.cons_append, List.length_cons] at hlen
    obtain ⟨q, todo, rfl⟩ := List.exists_cons_of_length_eq_add_one hlen
    rw [List.length_cons] at hlen hfit hgap
    obtain ⟨hgap', hpre⟩ := List.forall_mem_cons.mp hpre
    have hnext := returned_next rest hpairs (by omega)
    have hpairs' : pairs = (done ++ [p]) ++ q :: todo := by simp [hpairs]
    have hdone : (done ++ [p]).length = done.length + 1 := List.length_append
    rw [List.cons_append, playback, call_pair rest hpairs (by omega) hstart, hnext]
    dsimp only
    rw [List.length_cons, List.getElem?_cons_succ]
    exact ih hpairs' (by omega) (by omega) hpre (by omega) (startNumber_next done p tick hgap')

end Playback

/-- Stepwise, each call plays one pair. -/
theorem map_fst_stepwise (p : MacroPair) (todo : List MacroPair) :
    (stepwise (p :: todo)).map Prod.fst = (p :: todo).map MacroPair.calls := by
  induction todo generalizing p with
  | nil => rfl
  | cons q todo ih =>
    rw [stepwise, List.map_cons, ih q]
    rfl

/-- Stepwise, the calls together play the whole macro. -/
theorem flatMap_stepwise (pairs : List MacroPair) :
    (stepwise pairs).flatMap Prod.fst = pairs.flatMap MacroPair.calls := by
  cases pairs with
  | nil => rfl
  | cons p todo => rw [List.flatMap_def, map_fst_stepwise, List.flatMap_def]

theorem flatMap_commands_calls (pairs : List MacroPair) :
    (pairs.flatMap MacroPair.commands).flatMap MacroCommand.calls =
      pairs.flatMap MacroPair.calls := by
  simp only [List.flatMap_assoc, MacroPair.flatMap_calls]

/-- Calls that go through the macro step by step together play it. -/
theorem playMacro_of_stepwise {pairs : List MacroPair} {plays : List TapPlay}
    (h : plays.map TapPlay.shown = stepwise pairs) (tail : List (BitVec 8)) :
    playMacro ((pairs.flatMap MacroPair.commands).flatMap MacroCommand.encode ++
        macroEnd :: tail) = some (plays.flatMap (·.calls), tail) := by
  have hcalls : plays.flatMap (·.calls) = pairs.flatMap MacroPair.calls := by
    rw [← flatMap_stepwise, ← h, List.flatMap_map]
    rfl
  rw [playMacro_program, flatMap_commands_calls, hcalls]

theorem playback_nil (tick timersCount : BitVec 32) (rest : MacroMemory) :
    (playback (macroMemory [] rest) tick timersCount 0 []).map TapPlay.shown = stepwise [] := rfl

/-- The first gap at which a playback of more than `n + 1` calls, or with
two calls in one tick, goes wrong. -/
theorem exists_restart {n : Nat} {gaps : List (Fin 2000)}
    (h : ¬ (gaps.length ≤ n ∧ ∀ gap ∈ gaps, gap.val ≠ 0)) :
    ∃ pre gap post, gaps = pre ++ gap :: post ∧ pre.length ≤ n ∧ (∀ gap ∈ pre, gap.val ≠ 0) ∧
      (gap.val = 0 ∨ pre.length = n) := by
  induction gaps generalizing n with
  | nil => exact absurd ⟨Nat.zero_le n, nofun⟩ h
  | cons gap gaps ih =>
    by_cases hgap : gap.val = 0
    · exact ⟨[], gap, gaps, rfl, Nat.zero_le n, nofun, .inl hgap⟩
    · cases n with
      | zero => exact ⟨[], gap, gaps, rfl, Nat.le_refl 0, nofun, .inr rfl⟩
      | succ n =>
        have htail : ¬ (gaps.length ≤ n ∧ ∀ gap ∈ gaps, gap.val ≠ 0) := fun hgaps =>
          h ⟨Nat.succ_le_succ hgaps.1, List.forall_mem_cons.mpr ⟨hgap, hgaps.2⟩⟩
        obtain ⟨pre, gap', post, rfl, hlen, hpre, hend⟩ := ih htail
        exact ⟨gap :: pre, gap', post, rfl, Nat.succ_le_succ hlen,
          List.forall_mem_cons.mpr ⟨hgap, hpre⟩, hend.imp_right (congrArg (· + 1))⟩

/-- A macro whose first call cannot be mistaken for a later one. -/
def marked (n : Nat) : List MacroPair :=
  (.down 4, .up 4) :: List.replicate n (.down 5, .up 5)

/-- A macro is played stepwise when its taps are at most 64 and none comes in
the tick of the one before. -/
theorem stepwise_of_fits {tick : BitVec 32} {gaps : List (Fin 2000)} {pairs : List MacroPair}
    (hlen : pairs.length - 1 = gaps.length) (hfit : gaps.length < 64)
    (hgaps : ∀ gap ∈ gaps, gap.val ≠ 0) : Stepwise tick gaps pairs := by
  intro rest timersCount tail
  have hshown : (playback (macroMemory pairs rest) tick timersCount 0 gaps).map TapPlay.shown =
      stepwise pairs := by
    cases pairs with
    | nil =>
      obtain rfl := List.eq_nil_of_length_eq_zero hlen.symm
      exact playback_nil tick timersCount rest
    | cons p todo =>
      exact playback_stepwise rest (List.nil_append _).symm (by simpa using hlen)
        (by simpa using hfit) hgaps rfl
  exact ⟨hshown, playMacro_of_stepwise hshown tail⟩

/-- A macro whose pairs can be told apart is played stepwise only then. -/
theorem fits_of_stepwise {tick : BitVec 32} {gaps : List (Fin 2000)}
    (h : Stepwise tick gaps (marked gaps.length)) :
    gaps.length < 64 ∧ ∀ gap ∈ gaps, gap.val ≠ 0 := by
  by_contra hnot
  have hsplit : ¬ (gaps.length ≤ 63 ∧ ∀ gap ∈ gaps, gap.val ≠ 0) := fun hgaps =>
    hnot ⟨Nat.lt_succ_of_le hgaps.1, hgaps.2⟩
  obtain ⟨pre, gap, post, rfl, hlen, hpre, hend⟩ := exists_restart hsplit
  generalize hn : (pre ++ gap :: post).length = n at h
  have hpairs : marked n = [] ++ (.down 4, .up 4) :: List.replicate n (.down 5, .up 5) := rfl
  have hbehind : pre.length + 1 < n + 1 := by
    rw [← hn, List.length_append, List.length_cons]
    omega
  -- the call behind `gap` plays the first pair, though the next one was due
  have hrestart := playback_restart (fun _ => 0) hpairs (by rw [hn, List.length_replicate])
    (by simpa using Nat.lt_succ_of_le hlen) hpre (by simpa using hend)
    (rfl : startNumber tick 0 0 = BitVec.ofNat 8 (4 * 0))
  have hdue : (playback (macroMemory (marked n) fun _ => 0) tick 0 0 (pre ++ gap :: post)).map
      (·.calls) = (marked n).map MacroPair.calls := by
    have hfst := congrArg (List.map Prod.fst) (h (fun _ => 0) 0 []).1
    rw [List.map_map, marked, map_fst_stepwise, ← marked] at hfst
    exact hfst
  have hfirst := tapFrom_pair (by decide : 0 < 64) (mem_pair (fun _ => 0) hpairs)
  rw [← List.getElem?_map, hdue, List.getElem?_map] at hrestart
  have hother : (marked n)[pre.length + 1]? = some (.down 5, .up 5) := by
    rw [marked, List.getElem?_cons_succ, List.getElem?_replicate, if_pos (by omega)]
  have hsame : MacroPair.calls (.down 5, .up 5) = MacroPair.calls (.down 4, .up 4) := by
    rw [hother] at hrestart
    exact (Option.some.inj hrestart).trans (congrArg Prod.fst hfirst)
  exact absurd hsame (by decide)

/-- **Step-wise playback.** Going through a macro two commands a call is
playing it exactly if there are at most 64 calls and no two in a tick. -/
theorem stepwise_iff (tick : BitVec 32) (gaps : List (Fin 2000)) :
    (∀ pairs, pairs.length - 1 = gaps.length → Stepwise tick gaps pairs) ↔
      gaps.length < 64 ∧ ∀ gap ∈ gaps, gap.val ≠ 0 := by
  constructor
  · intro h
    exact fits_of_stepwise (h (marked gaps.length) (by simp [marked]))
  · intro h pairs hlen
    exact stepwise_of_fits hlen h.1 h.2

/-- A macro of 130 commands ends after 128 of them, and a second call in
the tick of the first plays the first two commands again. -/
theorem long_macro_cut :
    ¬ Stepwise 0 (List.replicate 64 100) (marked 64) ∧ ¬ Stepwise 0 [0] (marked 1) := by
  constructor
  · intro h
    have hlong := (fits_of_stepwise h).1
    exact absurd hlong (by rw [List.length_replicate]; decide)
  · intro h
    exact (fits_of_stepwise h).2 0 (List.mem_singleton_self 0) rfl

end Ch583Kbd.Tmk
