/-
Ch583Kbd.Rgb.LastHits — the key hits that the reactive effects show
(`last_hit_buffer` of `RGB_top/rgb_matrix.c`).

`process_rgb_matrix` appends a hit, `rgb_task_timers` makes all of them
older. The history of a run (`observe`) is kept beside it, and
`run_tracks` says when the buffer is its window: `rgb_task_timers` gives
up a hit that is too old by taking one off `count`, which gives up the
latest one, so that all hits of the buffer have to become too old
together.
-/
import Ch583Kbd.Drivers.KeyboardTimer
import Ch583Kbd.Lib.AgeWindow
import Mathlib.Data.List.Nodup

namespace Ch583Kbd.Rgb

open Ch583Kbd.Lib Drivers AgeHistory

/-! ## The buffer -/

def ledHitsToRemember : Nat := 8
def noLed : BitVec 8 := 255
def uint16Max : Nat := 65535

structure Point where
  x : BitVec 8
  y : BitVec 8
  deriving DecidableEq, Repr

/-- `g_led_config`. -/
structure LedConfig where
  matrixCo : Nat → Nat → BitVec 8
  point : BitVec 8 → Point

/-- `last_hit_t`, as `rgb_matrix_init` leaves it. -/
structure LastHit where
  count : Nat := 0
  x : Nat → BitVec 8 := fun _ => 0
  y : Nat → BitVec 8 := fun _ => 0
  index : Nat → BitVec 8 := fun _ => 0
  tick : Nat → BitVec 16 := fun _ => 0xFFFF

/-- `last_hit_buffer` and `rgb_timer_buffer`. -/
structure HitState where
  lastHit : LastHit := {}
  timer : BitVec 32 := 0

variable (cfg : LedConfig)

/-- The weak function; no keyboard has its own. -/
def rgbMatrixMapRowColumnToLedKb (_row _col : Nat) : List (BitVec 8) := []

def rgbMatrixMapRowColumnToLed (row col : Nat) : List (BitVec 8) :=
  let led := rgbMatrixMapRowColumnToLedKb row col
  let ledIndex := cfg.matrixCo row col
  if ledIndex ≠ noLed then led ++ [ledIndex] else led

/-- `memcpy(&a[0], &a[k], n)`, from the low addresses on. -/
def memcpyDown {β : Type} (n k : Nat) (a : Nat → β) : Nat → β := fun i =>
  if i < n then a (i + k) else a i

/-- What `process_rgb_matrix` does first when `ledCount` hits do not fit. -/
def makeRoom (ledCount : Nat) (b : LastHit) : LastHit :=
  let room := ledHitsToRemember - ledCount
  if b.count + ledCount > ledHitsToRemember then
    { count := room, x := memcpyDown room ledCount b.x, y := memcpyDown room ledCount b.y,
      tick := memcpyDown room ledCount b.tick, index := memcpyDown room ledCount b.index }
  else b

/-- One turn of the loop of `process_rgb_matrix`: the hit of `led` behind those
that are there. -/
def addHit (b : LastHit) (led : BitVec 8) : LastHit :=
  let index := b.count
  { x := Function.update b.x index (cfg.point led).x
    y := Function.update b.y index (cfg.point led).y
    index := Function.update b.index index led
    tick := Function.update b.tick index 0
    count := b.count + 1 }

def processRgbMatrix (row col : Nat) (pressed : Bool) (b : LastHit) : LastHit :=
  let led := if pressed then rgbMatrixMapRowColumnToLed cfg row col else []
  led.foldl (addHit cfg) (makeRoom led.length b)

/-- `UINT16_MAX - deltaTime < tick`, in 32 bits. -/
def tooOld (deltaTime : BitVec 32) (tick : BitVec 16) : Bool :=
  BitVec.ofNat 32 uint16Max - deltaTime < tick.setWidth 32

/-- One turn of the loop of `rgb_task_timers`. -/
def ageHit (deltaTime : BitVec 32) (b : LastHit) (i : Nat) : LastHit :=
  if tooOld deltaTime (b.tick i) then { b with count := b.count - 1 }
  else
    { b with tick := Function.update b.tick i (((b.tick i).setWidth 32 + deltaTime).setWidth 16) }

def rgbTaskTimers (tick : BitVec 32) (s : HitState) : HitState :=
  let deltaTime := timerElapsed32 tick s.timer
  { timer := timerRead32 tick
    lastHit := (List.range s.lastHit.count).foldl (ageHit deltaTime) s.lastHit }

/-! ## Runs -/

inductive HitEvent where
  | key (row col : Nat) (pressed : Bool)
  /-- `rgb_task_timers`, `d` ticks after the last time. -/
  | timers (d : Nat)
  deriving DecidableEq, Repr

def hitStep (s : HitState) : HitEvent → HitState
  | .key row col pressed => { s with lastHit := processRgbMatrix cfg row col pressed s.lastHit }
  | .timers d => rgbTaskTimers (laterTick s.timer d) s

structure Hit where
  index : BitVec 8
  x : BitVec 8
  y : BitVec 8
  deriving DecidableEq, Repr

/-- The hit of an LED. -/
def hitAt (led : BitVec 8) : Hit := ⟨led, (cfg.point led).x, (cfg.point led).y⟩

/-- The hits of a run with the time since, whatever the buffer makes of
them. -/
def observe (h : AgeHistory Hit) : HitEvent → AgeHistory Hit
  | .key row col pressed =>
    if pressed ∧ cfg.matrixCo row col ≠ noLed then h.record (hitAt cfg (cfg.matrixCo row col))
    else h
  | .timers d => h.elapse d

/-- What the buffer holds, with its ticks. -/
def LastHit.stored (b : LastHit) : List (Hit × Nat) :=
  (List.range b.count).map fun i => (⟨b.index i, b.x i, b.y i⟩, (b.tick i).toNat)

/-- The buffer holds the recent part of the history. -/
def Tracks (s : HitState) (h : AgeHistory Hit) : Prop :=
  s.lastHit.stored = h.window ledHitsToRemember uint16Max

instance (s : HitState) (h : AgeHistory Hit) : Decidable (Tracks s h) :=
  inferInstanceAs (Decidable (_ = _))

/-- It does in the state `s` and in all that the events lead to. -/
def TracksAll : HitState → AgeHistory Hit → List HitEvent → Prop
  | s, h, [] => Tracks s h
  | s, h, e :: events => Tracks s h ∧ TracksAll (hitStep cfg s e) (observe cfg h e) events

/-! ## A key event -/

variable {cfg} {b : LastHit}

@[simp] theorem length_stored : b.stored.length = b.count := by
  simp [LastHit.stored]

/-- A new hit is appended with age zero. -/
theorem stored_addHit (led : BitVec 8) :
    (addHit cfg b led).stored = b.stored ++ [(hitAt cfg led, 0)] := by
  rw [LastHit.stored, addHit, List.range_succ, List.map_append]
  refine congr (congrArg _ (List.map_congr_left fun i hi => ?_)) ?_
  · have hne : i ≠ b.count := Nat.ne_of_lt (List.mem_range.mp hi)
    simp [Function.update_of_ne hne]
  · simp [hitAt]

theorem makeRoom_zero (hcount : b.count ≤ ledHitsToRemember) : makeRoom 0 b = b :=
  if_neg (Nat.not_lt.mpr hcount)

/-- Making room drops the oldest hit of a full buffer. -/
theorem stored_makeRoom_one (hcount : b.count ≤ ledHitsToRemember) :
    (makeRoom 1 b).stored = b.stored.drop (b.stored.length + 1 - ledHitsToRemember) := by
  rw [length_stored, makeRoom]
  split
  · next hfull =>
    have heq : b.count = ledHitsToRemember - 1 + 1 := by
      rw [ledHitsToRemember] at *
      omega
    rw [LastHit.stored, LastHit.stored, heq, List.range_succ_eq_map, List.map_cons]
    have hdrop : ledHitsToRemember - 1 + 1 + 1 - ledHitsToRemember = 1 := rfl
    rw [hdrop, List.drop_one, List.tail_cons, List.map_map]
    refine List.map_congr_left fun i hi => ?_
    simp [memcpyDown, List.mem_range.mp hi]
  · next hfits =>
    rw [Nat.sub_eq_zero_of_le (Nat.not_lt.mp hfits), List.drop_zero]

theorem rgbMatrixMapRowColumnToLed_eq (row col : Nat) :
    rgbMatrixMapRowColumnToLed cfg row col =
      if cfg.matrixCo row col ≠ noLed then [cfg.matrixCo row col] else [] := rfl

/-- A key event appends its hit, or does nothing. -/
theorem stored_processRgbMatrix (row col : Nat) (pressed : Bool)
    (hcount : b.count ≤ ledHitsToRemember) :
    (processRgbMatrix cfg row col pressed b).stored =
      if pressed ∧ cfg.matrixCo row col ≠ noLed then
        b.stored.drop (b.stored.length + 1 - ledHitsToRemember) ++
          [(hitAt cfg (cfg.matrixCo row col), 0)]
      else b.stored := by
  rw [processRgbMatrix, rgbMatrixMapRowColumnToLed_eq]
  by_cases hhit : pressed = true ∧ cfg.matrixCo row col ≠ noLed
  · rw [if_pos hhit, if_pos hhit.1, if_pos hhit.2]
    show (addHit cfg (makeRoom 1 b) _).stored = _
    rw [stored_addHit, stored_makeRoom_one hcount]
  · have hnone : (if pressed then
        if cfg.matrixCo row col ≠ noLed then [cfg.matrixCo row col] else [] else []) = [] := by
      split
      · next hp => exact if_neg fun hled => hhit ⟨hp, hled⟩
      · rfl
    rw [if_neg hhit, hnone]
    show (makeRoom 0 b).stored = _
    rw [makeRoom_zero hcount]

/-! ## The timers -/

/-- The test of the source as numbers: a hit is dropped when the delay fits but
its age no longer would. -/
theorem tooOld_iff (deltaTime : BitVec 32) (t : BitVec 16) :
    tooOld deltaTime t = true ↔
      deltaTime.toNat ≤ uint16Max ∧ uint16Max < t.toNat + deltaTime.toNat := by
  have ht := t.isLt
  have hd := deltaTime.isLt
  rw [tooOld, uint16Max, decide_eq_true_iff, BitVec.lt_def, BitVec.toNat_sub, BitVec.toNat_setWidth,
    BitVec.toNat_ofNat]
  omega

/-- A hit that is kept has its age counted modulo 2^16. -/
theorem aged_toNat (deltaTime : BitVec 32) (t : BitVec 16) :
    ((t.setWidth 32 + deltaTime).setWidth 16).toNat = (t.toNat + deltaTime.toNat) % 65536 := by
  rw [BitVec.toNat_setWidth, BitVec.toNat_add, BitVec.toNat_setWidth]
  omega

/-- The ticks after the first `n` turns. -/
def agedTicks (deltaTime : BitVec 32) (b : LastHit) (n : Nat) (i : Nat) : BitVec 16 :=
  if i < n ∧ tooOld deltaTime (b.tick i) = false then
    ((b.tick i).setWidth 32 + deltaTime).setWidth 16
  else b.tick i

theorem agedTicks_zero (deltaTime : BitVec 32) (b : LastHit) : agedTicks deltaTime b 0 = b.tick :=
  funext fun i => if_neg fun h => Nat.not_lt_zero i h.1

theorem agedTicks_self (deltaTime : BitVec 32) (b : LastHit) (n : Nat) :
    agedTicks deltaTime b n n = b.tick n :=
  if_neg fun h => Nat.lt_irrefl n h.1

/-- The loop ages one hit at a time. -/
theorem agedTicks_succ (deltaTime : BitVec 32) (b : LastHit) (n : Nat) :
    agedTicks deltaTime b (n + 1) =
      Function.update (agedTicks deltaTime b n) n
        (if tooOld deltaTime (b.tick n) then b.tick n
          else ((b.tick n).setWidth 32 + deltaTime).setWidth 16) := by
  funext i
  by_cases hi : i = n
  · subst hi
    rw [Function.update_self, agedTicks]
    cases tooOld deltaTime (b.tick i) <;> simp
  · have hlt : i < n + 1 ↔ i < n := by omega
    rw [Function.update_of_ne hi]
    simp only [agedTicks, hlt]

/-- The first `n` turns take one off the count for each hit that is too
old, and touch the ticks of the others. -/
theorem foldl_ageHit (deltaTime : BitVec 32) (b : LastHit) (n : Nat) :
    (List.range n).foldl (ageHit deltaTime) b =
      { b with
        count := b.count - (List.range n).countP fun i => tooOld deltaTime (b.tick i)
        tick := agedTicks deltaTime b n } := by
  induction n with
  | zero => rw [agedTicks_zero]; rfl
  | succ n ih =>
    rw [List.range_succ, List.foldl_append, ih, List.foldl_cons, List.foldl_nil, ageHit,
      List.countP_append, List.countP_singleton, agedTicks_succ]
    simp only [agedTicks_self]
    cases tooOld deltaTime (b.tick n) with
    | true =>
      have hkeep : Function.update (agedTicks deltaTime b n) n (b.tick n) =
          agedTicks deltaTime b n := by
        rw [← agedTicks_self deltaTime b n, Function.update_eq_self]
      simp only [if_true, hkeep, Nat.sub_add_eq]
    | false => simp only [Bool.false_eq_true, if_false, Nat.add_zero]

variable {s : HitState} {tick : BitVec 32}

/-- Where all hits are too old, none is left. -/
theorem stored_rgbTaskTimers_old
    (hold : ∀ i < s.lastHit.count, tooOld (timerElapsed32 tick s.timer) (s.lastHit.tick i) = true) :
    (rgbTaskTimers tick s).lastHit.stored = [] := by
  have hall : (List.range s.lastHit.count).countP
      (fun i => tooOld (timerElapsed32 tick s.timer) (s.lastHit.tick i)) = s.lastHit.count := by
    rw [List.countP_eq_length.mpr fun i hi => hold i (List.mem_range.mp hi), List.length_range]
  rw [rgbTaskTimers, foldl_ageHit, hall, LastHit.stored, Nat.sub_self]
  rfl

/-- Where no hit is too old, all are kept and get older by the delay. -/
theorem stored_rgbTaskTimers_young
    (hyoung : ∀ i < s.lastHit.count,
      tooOld (timerElapsed32 tick s.timer) (s.lastHit.tick i) = false) :
    (rgbTaskTimers tick s).lastHit.stored =
      s.lastHit.stored.map fun e => (e.1, (e.2 + (timerElapsed32 tick s.timer).toNat) % 65536) := by
  have hnone : (List.range s.lastHit.count).countP
      (fun i => tooOld (timerElapsed32 tick s.timer) (s.lastHit.tick i)) = 0 := by
    rw [List.countP_eq_zero]
    intro i hi
    rw [hyoung i (List.mem_range.mp hi)]
    exact Bool.false_ne_true
  rw [rgbTaskTimers, foldl_ageHit, hnone, LastHit.stored, Nat.sub_zero, LastHit.stored,
    List.map_map]
  refine List.map_congr_left fun i hi => ?_
  have hi := List.mem_range.mp hi
  dsimp only [Function.comp]
  rw [agedTicks, if_pos ⟨hi, hyoung i hi⟩, aged_toNat]

/-! ## Runs that keep track -/

/-- What `timer_elapsed32` makes of `d` ticks after `t`. -/
def counted (t : BitVec 32) (d : Nat) : Nat :=
  if d % 2 ^ 32 = 0 then 2 ^ 32 - 1
  else if t.toNat + d % 2 ^ 32 < 2 ^ 32 then d % 2 ^ 32 else d % 2 ^ 32 - 1

/-- `timer_elapsed32` counts what `counted` says of the time since `t`. -/
theorem timerElapsed32_laterTick (t : BitVec 32) (d : Nat) :
    (timerElapsed32 (laterTick t d) t).toNat = counted t d := by
  have ht := t.isLt
  have hlater : (t.toNat + d) % 4294967296 = if t.toNat + d % 2 ^ 32 < 2 ^ 32
      then t.toNat + d % 2 ^ 32 else t.toNat + d % 2 ^ 32 - 2 ^ 32 := by
    split <;> omega
  rw [timerElapsed32_toNat, laterTick_toNat, counted, hlater]
  by_cases hwrap : t.toNat + d % 2 ^ 32 < 2 ^ 32
  · rw [if_pos hwrap, if_pos hwrap]
    split <;> split <;> omega
  · rw [if_neg hwrap, if_neg hwrap, if_neg (by omega), if_neg (by omega)]
    omega

/-- At a step of the timers there is no hit; or none becomes too old, and
the time is counted right; or all do, and are seen to. -/
def TracksNext (s : HitState) : HitEvent → Prop
  | .key .. => True
  | .timers d =>
    s.lastHit.count = 0 ∨
      (counted s.timer d = d ∧ ∀ i < s.lastHit.count, (s.lastHit.tick i).toNat + d ≤ uint16Max) ∨
      (counted s.timer d ≤ uint16Max ∧
        ∀ i < s.lastHit.count, uint16Max < (s.lastHit.tick i).toNat + counted s.timer d)

instance (s : HitState) : (e : HitEvent) → Decidable (TracksNext s e)
  | .key .. => inferInstanceAs (Decidable True)
  | .timers _ => inferInstanceAs (Decidable (_ ∨ _ ∧ _ ∨ _ ∧ _))

/-- The condition at every step of a run. -/
def TracksNextAll (cfg : LedConfig) : HitState → List HitEvent → Prop
  | _, [] => True
  | s, e :: events => TracksNext s e ∧ TracksNextAll cfg (hitStep cfg s e) events

instance decidableTracksNextAll (cfg : LedConfig) :
    (s : HitState) → (events : List HitEvent) → Decidable (TracksNextAll cfg s events)
  | _, [] => inferInstanceAs (Decidable True)
  | s, e :: events =>
    have := decidableTracksNextAll cfg (hitStep cfg s e) events
    inferInstanceAs (Decidable (TracksNext s e ∧ _))

/-- A property of all stored ages, by index. -/
theorem forall_mem_stored {P : Nat → Prop} :
    (∀ e ∈ b.stored, P e.2) ↔ ∀ i < b.count, P (b.tick i).toNat := by
  simp [LastHit.stored]

/-- Where the count fits a tick, it counts no time that did not pass. -/
theorem counted_le {t : BitVec 32} {d : Nat} (h : counted t d ≤ uint16Max) : counted t d ≤ d := by
  have hmod := Nat.mod_le d (2 ^ 32)
  rw [counted]
  split
  · next h0 =>
    rw [counted, if_pos h0] at h
    exact absurd h (by decide)
  · split <;> omega

/-- At a step of the timers the buffer has to drop what the time makes too
old. -/
theorem tracks_timers_iff {h : AgeHistory Hit} (htrack : Tracks s h) (hord : h.Ordered) (d : Nat) :
    Tracks (hitStep cfg s (.timers d)) (observe cfg h (.timers d)) ↔
      (rgbTaskTimers (laterTick s.timer d) s).lastHit.stored =
        (s.lastHit.stored.map fun e => (e.1, e.2 + d)).filter fun e => e.2 ≤ uint16Max := by
  rw [htrack, ← window_elapse hord]
  rfl

/-- When no age grows too old together with `d`, the filter keeps all. -/
theorem filter_older {l : List (Hit × Nat)} {d : Nat} (hl : ∀ e ∈ l, e.2 + d ≤ uint16Max) :
    ((l.map fun e => (e.1, e.2 + d)).filter fun e => e.2 ≤ uint16Max) =
      l.map fun e => (e.1, e.2 + d) := by
  rw [List.filter_eq_self]
  simp only [List.mem_map, decide_eq_true_eq]
  rintro _ ⟨e, he, rfl⟩
  exact hl e he

/-- **One step keeps track**, when its condition holds before it. -/
theorem hitStep_tracks {h : AgeHistory Hit} {e : HitEvent} (htrack : Tracks s h) (hord : h.Ordered)
    (hnext : TracksNext s e) : Tracks (hitStep cfg s e) (observe cfg h e) := by
  cases e with
  | key row col pressed =>
    have hcount : s.lastHit.count ≤ ledHitsToRemember := by
      rw [← length_stored, htrack]
      exact length_window_le
    rw [Tracks, hitStep, stored_processRgbMatrix row col pressed hcount, observe]
    split
    · rw [window_record (by decide), htrack]
    · exact htrack
  | timers d =>
    have hdelta := timerElapsed32_laterTick s.timer d
    rw [tracks_timers_iff htrack hord]
    rcases hnext with hnone | ⟨hcounted, hyoung⟩ | ⟨hcounted, hold⟩
    · have hempty : s.lastHit.stored = [] := List.length_eq_zero_iff.mp (length_stored.trans hnone)
      rw [hempty, stored_rgbTaskTimers_old fun i hi => by omega]
      rfl
    · have hle := (forall_mem_stored (P := fun t => t + d ≤ uint16Max)).mpr hyoung
      rw [filter_older hle, stored_rgbTaskTimers_young, hdelta, hcounted]
      · refine List.map_congr_left fun e he => ?_
        have hlt : e.2 + d < 65536 := Nat.lt_succ_of_le (hle e he)
        rw [Nat.mod_eq_of_lt hlt]
      · intro i hi
        have hle := hyoung i hi
        rw [Bool.eq_false_iff, Ne, tooOld_iff, hdelta, hcounted]
        omega
    · rw [stored_rgbTaskTimers_old, eq_comm, List.filter_eq_nil_iff]
      · have hlt := (forall_mem_stored (P := fun t => uint16Max < t + counted s.timer d)).mpr hold
        have hd := counted_le hcounted
        simp only [List.mem_map, decide_eq_true_eq, Nat.not_le]
        rintro _ ⟨e, he, rfl⟩
        exact Nat.lt_of_lt_of_le (hlt e he) (Nat.add_le_add_left hd _)
      · intro i hi
        rw [tooOld_iff, hdelta]
        exact ⟨hcounted, hold i hi⟩

/-- A count that is right modulo 2^16, for a time that fits, is right. -/
theorem counted_eq_of_mod {t : BitVec 32} {d : Nat} (hd : d ≤ uint16Max)
    (h : counted t d % 65536 = d) : counted t d = d := by
  rw [uint16Max] at hd
  have hmod : d % 2 ^ 32 = d := by omega
  rw [counted, hmod] at h ⊢
  by_cases h0 : d = 0
  · rw [if_pos h0] at h
    omega
  · rw [if_neg h0] at h ⊢
    by_cases hwrap : t.toNat + d < 2 ^ 32
    · rw [if_pos hwrap]
    · rw [if_neg hwrap] at h
      omega

/-- The hits that stay are the first ones, whatever their age. -/
theorem stored_rgbTaskTimers_hits (tick : BitVec 32) (s : HitState) :
    ∃ k ≤ s.lastHit.count, (rgbTaskTimers tick s).lastHit.stored.map Prod.fst =
        (s.lastHit.stored.take k).map Prod.fst ∧
      (k = 0 → ∀ i < s.lastHit.count,
        tooOld (timerElapsed32 tick s.timer) (s.lastHit.tick i) = true) ∧
      (k = s.lastHit.count → ∀ i < s.lastHit.count,
        tooOld (timerElapsed32 tick s.timer) (s.lastHit.tick i) = false) := by
  let old i := tooOld (timerElapsed32 tick s.timer) (s.lastHit.tick i)
  have hle : (List.range s.lastHit.count).countP old ≤ s.lastHit.count := by
    simpa using List.countP_le_length (l := List.range s.lastHit.count) (p := old)
  refine ⟨s.lastHit.count - (List.range s.lastHit.count).countP old, Nat.sub_le _ _, ?_, ?_, ?_⟩
  · rw [rgbTaskTimers, foldl_ageHit, LastHit.stored, LastHit.stored, ← List.map_take,
      List.take_range, Nat.min_eq_left (Nat.sub_le _ _), List.map_map, List.map_map]
    rfl
  · intro hk i hi
    have hall : (List.range s.lastHit.count).countP old = (List.range s.lastHit.count).length := by
      rw [List.length_range]
      omega
    exact List.countP_eq_length.mp hall i (List.mem_range.mpr hi)
  · intro hk i hi
    have hnone : (List.range s.lastHit.count).countP old = 0 := by omega
    exact Bool.eq_false_iff.mpr (List.countP_eq_zero.mp hnone i (List.mem_range.mpr hi))

/-- If the first of different hits stays, it is not too old. -/
theorem head_stays {e : Hit × Nat} {rest : List (Hit × Nat)} {d : Nat} {hits : List Hit}
    (hleds : ((e :: rest).map Prod.fst).Nodup)
    (hstays : ((((e :: rest).map fun e => (e.1, e.2 + d)).filter
      fun e => e.2 ≤ uint16Max).map Prod.fst) = e.1 :: hits) : e.2 + d ≤ uint16Max := by
  by_contra hgone
  rw [List.map_cons, List.filter_cons_of_neg (by simpa using hgone)] at hstays
  have hmem : e.1 ∈ ((rest.map fun e => (e.1, e.2 + d)).filter
      fun e => e.2 ≤ uint16Max).map Prod.fst := by
    rw [hstays]
    exact List.mem_cons_self
  obtain ⟨_, hf, hfe⟩ := List.mem_map.mp hmem
  obtain ⟨f, hrest, rfl⟩ := List.mem_map.mp (List.mem_of_mem_filter hf)
  exact (List.nodup_cons.mp hleds).1 (List.mem_map.mpr ⟨f, hrest, hfe⟩)

/-- With hits of different LEDs no other step keeps track: a hit that
should have gone stays in the place of one that should not. -/
theorem hitStep_tracks_iff {h : AgeHistory Hit} {e : HitEvent} (htrack : Tracks s h)
    (hord : h.Ordered) (hleds : (s.lastHit.stored.map Prod.fst).Nodup) :
    Tracks (hitStep cfg s e) (observe cfg h e) ↔ TracksNext s e := by
  refine ⟨fun hstep => ?_, hitStep_tracks htrack hord⟩
  cases e with
  | key row col pressed => trivial
  | timers d =>
    have hage := (tracks_timers_iff htrack hord d).mp hstep
    have hfirst : s.lastHit.stored.Pairwise fun e f => f.2 ≤ e.2 := by
      rw [htrack]
      exact window_pairwise hord
    have hdelta := timerElapsed32_laterTick s.timer d
    obtain ⟨k, hk, hhits, hold, hyoung⟩ := stored_rgbTaskTimers_hits (laterTick s.timer d) s
    rw [hage] at hhits
    by_cases hk0 : k = 0
    · have hold := hold hk0
      simp only [tooOld_iff, hdelta] at hold
      rcases Nat.eq_zero_or_pos s.lastHit.count with hnone | hsome
      · exact .inl hnone
      · exact .inr (.inr ⟨(hold 0 hsome).1, fun i hi => (hold i hi).2⟩)
    · obtain ⟨e, rest, hstored⟩ : ∃ e rest, s.lastHit.stored = e :: rest := by
        refine List.exists_cons_of_length_pos ?_
        rw [length_stored]
        omega
      obtain ⟨k, rfl⟩ := Nat.exists_eq_succ_of_ne_zero hk0
      have hcount : s.lastHit.count = rest.length + 1 := by rw [← length_stored, hstored]; rfl
      rw [hstored] at hhits hleds hfirst
      have he := head_stays hleds hhits
      have hall : ∀ f ∈ s.lastHit.stored, f.2 + d ≤ uint16Max := by
        rw [hstored]
        intro f hf
        rcases List.mem_cons.mp hf with rfl | hf
        · exact he
        · exact Nat.le_trans (Nat.add_le_add_right ((List.pairwise_cons.mp hfirst).1 f hf) d) he
      have hkeep := filter_older hall
      have hkcount : k + 1 = s.lastHit.count := by
        have hlen := congrArg List.length hhits
        rw [← hstored, hkeep, List.length_map, List.length_map, List.length_map, length_stored,
          List.length_take, length_stored] at hlen
        omega
      have hsame := (stored_rgbTaskTimers_young (hyoung hkcount)).symm.trans (hage.trans hkeep)
      rw [hstored, List.map_cons, List.map_cons, List.cons.injEq, Prod.mk.injEq, hdelta] at hsame
      have hmod : counted s.timer d % 65536 = d := by
        have hround := hsame.1.2
        rw [uint16Max] at he
        omega
      refine .inr (.inl ⟨counted_eq_of_mod (by omega) hmod, ?_⟩)
      exact (forall_mem_stored (P := fun t => t + d ≤ uint16Max)).mp hall

/-- The hits of the abstract history stay in the order they came in. -/
theorem observe_ordered {h : AgeHistory Hit} (hord : h.Ordered) (e : HitEvent) :
    (observe cfg h e).Ordered := by
  cases e with
  | key row col pressed =>
    rw [observe]
    split
    · exact hord.record
    · exact hord
  | timers d => exact hord.elapse

/-- A run whose steps all meet the condition keeps track throughout. -/
theorem tracksAll {h : AgeHistory Hit} {events : List HitEvent} (htrack : Tracks s h)
    (hord : h.Ordered) (hnext : TracksNextAll cfg s events) : TracksAll cfg s h events := by
  induction events generalizing s h with
  | nil => exact htrack
  | cons e events ih =>
    obtain ⟨he, hrest⟩ := hnext
    exact ⟨htrack, ih (hitStep_tracks htrack hord he) (observe_ordered hord e) hrest⟩

/-- **Key hits.** From power-up on the buffer is the window of the history,
in every state of a run in which each step of the timers finds no hit, or
only ones that stay, or only ones that are seen to have become too old. -/
theorem run_tracks (cfg : LedConfig) (events : List HitEvent)
    (hnext : TracksNextAll cfg {} events) : TracksAll cfg {} [] events :=
  tracksAll window_nil.symm ordered_nil hnext

/-- Keys in the first row, an LED for each column. -/
def ledRow : LedConfig where
  matrixCo _ col := BitVec.ofNat 8 col
  point led := ⟨led, 0⟩

/-- Two hits at different times, and a step at which both grow too old. -/
theorem run_tracks_two_keys :
    TracksAll ledRow {} [] [.key 0 0 true, .timers 40000, .key 0 1 true, .timers 20000,
      .timers 60000] :=
  run_tracks ledRow _ (by decide)

/-- Of two hits, 80000 and 40000 ticks old, the older one is kept. -/
theorem latest_hit_dropped :
    ¬TracksAll ledRow {} [] [.key 0 0 true, .timers 40000, .key 0 1 true, .timers 40000] ∧
      ([.key 0 0 true, .timers 40000, .key 0 1 true, .timers 40000].foldl
        (hitStep ledRow) {}).lastHit.stored = [(⟨0, 0, 0⟩, 40000)] := by
  refine ⟨fun h => ?_, by decide⟩
  have hlast : Tracks _ _ := h.2.2.2.2
  exact absurd hlast (by decide)

end Ch583Kbd.Rgb
