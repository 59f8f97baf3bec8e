/-
Ch583Kbd.Tmk.ActionMacro — the macro bytecode and `action_macro_play`
(`action_macro.c`, `action_macro.h`).

The memory from `macro_p` on is a list of bytes; a read takes its head,
and a play that runs off the end of the list is `none`. What a play does
is a list of calls: none of them depends on what an earlier one did,
except that `set_mods` gets back what `get_mods` stored, which
`MacroCall.run` keeps beside the state.

`MacroCommand` is the language that the comments of `action_macro.h`
describe, and `encode` gives its bytes. What a command stands for is said
there once more and without the interpreter: `calls` are the operations in
their order, `perform` is what becomes of the state.
-/
import Ch583Kbd.Tmk.Action

namespace Ch583Kbd.Tmk

/-! ## What a play does -/

inductive MacroCall where
  | registerCode (code : BitVec 8)
  | unregisterCode (code : BitVec 8)
  | addWeakMods (mods : BitVec 8)
  | delWeakMods (mods : BitVec 8)
  | storeMods
  | restoreMods
  | clearMods
  | sendKeyboardReport
  | wait (ms : BitVec 8)
  deriving DecidableEq, Repr

/-- A call's effect on the state and on `mod_storage`. -/
def MacroCall.run (s : ActionState × BitVec 8) : MacroCall → ActionState × BitVec 8
  | registerCode code => (s.1.registerCode code, s.2)
  | unregisterCode code => (s.1.unregisterCode code, s.2)
  | addWeakMods mods => (s.1.addWeakMods mods, s.2)
  | delWeakMods mods => (s.1.delWeakMods mods, s.2)
  | storeMods => (s.1, s.1.realMods)
  | restoreMods => ({ s.1 with realMods := s.2 }, s.2)
  | clearMods => (s.1.clearMods, s.2)
  | sendKeyboardReport => (s.1.sendKeyboardReport, s.2)
  | wait _ => s

/-! ## The interpreter -/

def macroEnd : BitVec 8 := 0x00
def macroKeyDown : BitVec 8 := 0x01
def macroKeyUp : BitVec 8 := 0x02
def macroWait : BitVec 8 := 0x74
def macroInterval : BitVec 8 := 0x75
def macroModStore : BitVec 8 := 0x76
def macroModRestore : BitVec 8 := 0x77
def macroModClear : BitVec 8 := 0x78

/-- `DELAY_TIME`. -/
def delayTime : BitVec 8 := 7

/-- The body of `case KEY_DOWN`, without its wait. -/
def keyDownCalls (code : BitVec 8) : List MacroCall :=
  if isMod code then [.addWeakMods (modBit code), .sendKeyboardReport]
  else [.registerCode code]

/-- The body of `case KEY_UP`, without its wait. -/
def keyUpCalls (code : BitVec 8) : List MacroCall :=
  if isMod code then [.delWeakMods (modBit code), .sendKeyboardReport]
  else [.unregisterCode code]

/-- The calls of a play come before those of the rest of it. -/
def before (calls : List MacroCall) (later : List MacroCall × List (BitVec 8)) :
    List MacroCall × List (BitVec 8) :=
  (calls ++ later.1, later.2)

/-- The loop of `action_macro_play`: its calls, and the bytes it has not
read when it returns. -/
def playMacro : List (BitVec 8) → Option (List MacroCall × List (BitVec 8))
  | [] => none
  | opcode :: bytes =>
    if opcode = macroKeyDown then
      match bytes with
      | [] => none
      | code :: bytes => (playMacro bytes).map (before (keyDownCalls code ++ [.wait delayTime]))
    else if opcode = macroKeyUp then
      match bytes with
      | [] => none
      | code :: bytes => (playMacro bytes).map (before (keyUpCalls code ++ [.wait delayTime]))
    else if opcode = macroWait ∨ opcode = macroInterval then
      match bytes with
      | [] => none
      | ms :: bytes => (playMacro bytes).map (before [.wait ms])
    else if opcode = macroModStore then (playMacro bytes).map (before [.storeMods])
    else if opcode = macroModRestore then
      (playMacro bytes).map (before [.restoreMods, .sendKeyboardReport, .wait delayTime])
    else if opcode = macroModClear then
      (playMacro bytes).map (before [.clearMods, .sendKeyboardReport, .wait delayTime])
    else if 0x04 ≤ opcode ∧ opcode ≤ 0x73 then
      (playMacro bytes).map (before [.registerCode opcode, .wait delayTime])
    else if 0x84 ≤ opcode ∧ opcode ≤ 0xF3 then
      (playMacro bytes).map (before [.unregisterCode (opcode &&& 0x7F), .wait delayTime])
    else some ([], bytes)

/-- `action_macro_play`; the null pointer is `none`. -/
def actionMacroPlay (s : ActionState) : Option (List (BitVec 8)) → Option ActionState
  | none => some s
  | some bytes => (playMacro bytes).map fun play => (play.1.foldl MacroCall.run (s, 0)).1

/-! ## The language -/

/-- A key code that has one-byte commands. -/
structure ShortCode where
  code : BitVec 8
  low : 0x04 ≤ code.toNat
  high : code.toNat ≤ 0x73
  deriving DecidableEq

inductive MacroCommand where
  /-- Key down in one byte. -/
  | down (key : ShortCode)
  | up (key : ShortCode)
  | keyDown (code : BitVec 8)
  | keyUp (code : BitVec 8)
  | wait (ms : BitVec 8)
  | interval (ms : BitVec 8)
  | modStore
  | modRestore
  | modClear
  deriving DecidableEq

/-- The bit of a modifier's key code in the report: the codes from `KC_LCTRL`
to `KC_RGUI` are the bits from 0 to 7, all others are no modifiers. -/
def modifierOf (code : BitVec 8) : Option (BitVec 8) :=
  match code.toNat with
  | 0xE0 => some 0x01
  | 0xE1 => some 0x02
  | 0xE2 => some 0x04
  | 0xE3 => some 0x08
  | 0xE4 => some 0x10
  | 0xE5 => some 0x20
  | 0xE6 => some 0x40
  | 0xE7 => some 0x80
  | _ => none

namespace MacroCommand

def encode : MacroCommand → List (BitVec 8)
  | down key => [key.code]
  | up key => [key.code ||| 0x80]
  | keyDown code => [macroKeyDown, code]
  | keyUp code => [macroKeyUp, code]
  | wait ms => [macroWait, ms]
  | interval ms => [macroInterval, ms]
  | modStore => [macroModStore]
  | modRestore => [macroModRestore]
  | modClear => [macroModClear]

/-- The operations of the command. Modifiers are weak ones, and whatever
changes the report waits for the host to take it. -/
def calls : MacroCommand → List MacroCall
  | down key => [.registerCode key.code, .wait delayTime]
  | up key => [.unregisterCode key.code, .wait delayTime]
  | keyDown code =>
    match modifierOf code with
    | some bit => [.addWeakMods bit, .sendKeyboardReport, .wait delayTime]
    | none => [.registerCode code, .wait delayTime]
  | keyUp code =>
    match modifierOf code with
    | some bit => [.delWeakMods bit, .sendKeyboardReport, .wait delayTime]
    | none => [.unregisterCode code, .wait delayTime]
  | wait ms | interval ms => [.wait ms]
  | modStore => [.storeMods]
  | modRestore => [.restoreMods, .sendKeyboardReport, .wait delayTime]
  | modClear => [.clearMods, .sendKeyboardReport, .wait delayTime]

/-- What the command makes of the state, and of the modifiers that were
stored last. -/
def perform (s : ActionState × BitVec 8) : MacroCommand → ActionState × BitVec 8
  | down key => (s.1.registerCode key.code, s.2)
  | up key => (s.1.unregisterCode key.code, s.2)
  | keyDown code =>
    match modifierOf code with
    | some bit => ({ s.1 with weakMods := s.1.weakMods ||| bit }.sendKeyboardReport, s.2)
    | none => (s.1.registerCode code, s.2)
  | keyUp code =>
    match modifierOf code with
    | some bit => ({ s.1 with weakMods := s.1.weakMods &&& ~~~bit }.sendKeyboardReport, s.2)
    | none => (s.1.unregisterCode code, s.2)
  | wait _ | interval _ => s
  | modStore => (s.1, s.1.realMods)
  | modRestore => ({ s.1 with realMods := s.2 }.sendKeyboardReport, s.2)
  | modClear => ({ s.1 with realMods := 0 }.sendKeyboardReport, s.2)

end MacroCommand

/-! ## The interpreter against the language -/

/-- The modifier of a code is what `IS_MOD` and `MOD_BIT` make of it. -/
theorem modifierOf_eq (code : BitVec 8) :
    modifierOf code = if isMod code then some (modBit code) else none := by
  revert code
  decide

theorem keyDownCalls_wait (code : BitVec 8) :
    keyDownCalls code ++ [.wait delayTime] = (MacroCommand.keyDown code).calls := by
  rw [keyDownCalls, MacroCommand.calls, modifierOf_eq]
  split <;> rfl

theorem keyUpCalls_wait (code : BitVec 8) :
    keyUpCalls code ++ [.wait delayTime] = (MacroCommand.keyUp code).calls := by
  rw [keyUpCalls, MacroCommand.calls, modifierOf_eq]
  split <;> rfl

/-- `KEY_DOWN` and its code perform the command and go on behind them. -/
theorem playMacro_keyDown (code : BitVec 8) (bytes : List (BitVec 8)) :
    playMacro (macroKeyDown :: code :: bytes) =
      (playMacro bytes).map (before (MacroCommand.keyDown code).calls) := by
  rw [playMacro, if_pos rfl, keyDownCalls_wait]

/-- `KEY_UP` and its code perform the command and go on behind them. -/
theorem playMacro_keyUp (code : BitVec 8) (bytes : List (BitVec 8)) :
    playMacro (macroKeyUp :: code :: bytes) =
      (playMacro bytes).map (before (MacroCommand.keyUp code).calls) := by
  rw [playMacro, if_neg (by decide), if_pos rfl, keyUpCalls_wait]

/-- `END` stops the macro and leaves the bytes behind it. -/
theorem playMacro_end (bytes : List (BitVec 8)) :
    playMacro (macroEnd :: bytes) = some ([], bytes) := by
  rw [playMacro.eq_def]
  rfl

theorem playMacro_down (key : ShortCode) (bytes : List (BitVec 8)) :
    playMacro (key.code :: bytes) =
      (playMacro bytes).map (before [.registerCode key.code, .wait delayTime]) := by
  obtain ⟨code, low, high⟩ := key
  have hne : ∀ opcode : BitVec 8, opcode.toNat < 0x04 ∨ 0x73 < opcode.toNat → code ≠ opcode := by
    rintro opcode hout rfl
    omega
  rw [playMacro.eq_def]
  dsimp only
  rw [if_neg (hne _ (by decide)), if_neg (hne _ (by decide)), if_neg (not_or.mpr
    ⟨hne _ (by decide), hne _ (by decide)⟩), if_neg (hne _ (by decide)), if_neg (hne _ (by decide)),
    if_neg (hne _ (by decide)), if_pos ⟨low, high⟩]

/-- Bit 7 turns a one-byte key down into the key up of the same key. -/
theorem ShortCode.or_bit7 (key : ShortCode) :
    (key.code ||| 0x80).toNat = key.code.toNat + 0x80 ∧
      (key.code ||| 0x80) &&& 0x7F = key.code := by
  obtain ⟨code, low, high⟩ := key
  have hbit : code.getLsbD 7 = false := Nat.testBit_lt_two_pow (by omega)
  have hdisjoint : code &&& 0x80 = 0 :=
    (BitVec.and_twoPow code 7).trans (if_neg (Bool.eq_false_iff.mp hbit))
  constructor
  · rw [← BitVec.add_eq_or_of_and_eq_zero _ _ hdisjoint, BitVec.toNat_add]
    exact Nat.mod_eq_of_lt (Nat.lt_of_le_of_lt (Nat.add_le_add_right high 0x80) (by decide))
  · have hlow : code &&& 0x7F = code := by
      refine BitVec.eq_of_toNat_eq ?_
      rw [BitVec.toNat_and]
      exact Nat.and_two_pow_sub_one_of_lt_two_pow (n := 7) (by omega)
    rw [BitVec.and_or_distrib_right, hlow]
    exact BitVec.or_zero

theorem playMacro_up (key : ShortCode) (bytes : List (BitVec 8)) :
    playMacro ((key.code ||| 0x80) :: bytes) =
      (playMacro bytes).map (before [.unregisterCode key.code, .wait delayTime]) := by
  obtain ⟨hsum, hand⟩ := key.or_bit7
  have hlow := key.low
  have hhigh := key.high
  have hne : ∀ opcode : BitVec 8, opcode.toNat < 0x84 → key.code ||| 0x80 ≠ opcode := by
    rintro opcode hout rfl
    omega
  have hnot : ¬ (0x04 ≤ key.code ||| 0x80 ∧ key.code ||| 0x80 ≤ 0x73) := by
    rintro ⟨-, h⟩
    have hle := BitVec.le_def.mp h
    rw [hsum, show (0x73 : BitVec 8).toNat = 0x73 from rfl] at hle
    omega
  have hin : 0x84 ≤ key.code ||| 0x80 ∧ key.code ||| 0x80 ≤ 0xF3 := by
    constructor
    · rw [BitVec.le_def, hsum, show (0x84 : BitVec 8).toNat = 0x84 from rfl]
      omega
    · rw [BitVec.le_def, hsum, show (0xF3 : BitVec 8).toNat = 0xF3 from rfl]
      omega
  rw [playMacro.eq_def]
  dsimp only
  rw [if_neg (hne _ (by decide)), if_neg (hne _ (by decide)), if_neg (not_or.mpr
    ⟨hne _ (by decide), hne _ (by decide)⟩), if_neg (hne _ (by decide)), if_neg (hne _ (by decide)),
    if_neg (hne _ (by decide)), if_neg hnot, if_pos hin, hand]

/-- A command is played, and its bytes are read and no others. -/
theorem playMacro_encode (command : MacroCommand) (bytes : List (BitVec 8)) :
    playMacro (command.encode ++ bytes) = (playMacro bytes).map (before command.calls) := by
  cases command with
  | down key => exact playMacro_down key bytes
  | up key => exact playMacro_up key bytes
  | keyDown code => exact playMacro_keyDown code bytes
  | keyUp code => exact playMacro_keyUp code bytes
  | wait ms =>
    show playMacro (macroWait :: ms :: bytes) = _
    rw [playMacro.eq_def]
    rfl
  | interval ms =>
    show playMacro (macroInterval :: ms :: bytes) = _
    rw [playMacro.eq_def]
    rfl
  | modStore =>
    show playMacro (macroModStore :: bytes) = _
    rw [playMacro.eq_def]
    rfl
  | modRestore =>
    show playMacro (macroModRestore :: bytes) = _
    rw [playMacro.eq_def]
    rfl
  | modClear =>
    show playMacro (macroModClear :: bytes) = _
    rw [playMacro.eq_def]
    rfl

/-- **The interpreter makes the calls of the commands**, in order, and stops at
`END`: by induction over the program. -/
theorem playMacro_program (program : List MacroCommand) (rest : List (BitVec 8)) :
    playMacro (program.flatMap MacroCommand.encode ++ macroEnd :: rest) =
      some (program.flatMap MacroCommand.calls, rest) := by
  induction program with
  | nil => exact playMacro_end rest
  | cons command program ih =>
    rw [List.flatMap_cons, List.flatMap_cons, List.append_assoc, playMacro_encode, ih]
    rfl

/-! ## What a program does -/

/-- A command's calls come to what the command stands for. -/
theorem foldl_calls (s : ActionState × BitVec 8) (command : MacroCommand) :
    command.calls.foldl MacroCall.run s = command.perform s := by
  cases command with
  | keyDown code =>
    rw [MacroCommand.calls, MacroCommand.perform]
    cases modifierOf code <;> rfl
  | keyUp code =>
    rw [MacroCommand.calls, MacroCommand.perform]
    cases modifierOf code <;> rfl
  | _ => rfl

/-- And so do those of a program, one command after the other. -/
theorem foldl_program (program : List MacroCommand) (s : ActionState × BitVec 8) :
    (program.flatMap MacroCommand.calls).foldl MacroCall.run s =
      program.foldl (fun s command => command.perform s) s := by
  induction program generalizing s with
  | nil => rfl
  | cons command program ih =>
    rw [List.flatMap_cons, List.foldl_append, foldl_calls, ih, List.foldl_cons]

/-- **Macros.** A terminated program does what its commands stand for, in
order, and leaves everything behind its `END` unread. -/
theorem actionMacroPlay_program (program : List MacroCommand) (rest : List (BitVec 8)) :
    playMacro (program.flatMap MacroCommand.encode ++ macroEnd :: rest) =
        some (program.flatMap MacroCommand.calls, rest) ∧
      ∀ s, actionMacroPlay s (some (program.flatMap MacroCommand.encode ++ macroEnd :: rest)) =
        some (program.foldl (fun s command => command.perform s) (s, 0)).1 := by
  refine ⟨playMacro_program program rest, fun s => ?_⟩
  rw [actionMacroPlay, playMacro_program, Option.map_some, foldl_program]

/-- A report of one key. -/
def oneKeyReport (mods key : BitVec 8) : HostReport :=
  .keyboard (((Vector.replicate keyboardReportSize 0).set 0 mods).set 2 key)

/-- Shift down, A down, A up and shift up in six bytes. The byte behind `END`
is a key down, which is not played. -/
theorem actionMacroPlay_shiftedLetter :
    (actionMacroPlay {} (some [0x01, 0xE1, 0x04, 0x84, 0x02, 0xE1, 0x00, 0x05])).map (·.sent) =
      some [oneKeyReport 0x02 0, oneKeyReport 0x02 0x04, oneKeyReport 0x02 0,
        oneKeyReport 0 0] := by
  have hplay := (actionMacroPlay_program [.keyDown 0xE1, .down ⟨0x04, by decide, by decide⟩,
    .up ⟨0x04, by decide, by decide⟩, .keyUp 0xE1] [0x05]).2 {}
  refine (congrArg (Option.map (·.sent)) hplay).trans ?_
  decide

end Ch583Kbd.Tmk
