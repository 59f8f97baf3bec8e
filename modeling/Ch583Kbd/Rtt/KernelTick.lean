/-
Ch583Kbd.Rtt.KernelTick — the tick interrupt.

`rt_timer_check` wakes the threads whose timers have at most one tick left
of the tick before, and no others (`rtTimerCheck_spec`). The rounds of its
loop keep what a single one does.
-/
import Ch583Kbd.Rtt.KernelWaits

namespace Ch583Kbd.Rtt

namespace Kernel

variable {k k' k0 : Kernel} {t u i : Nat} {now : BitVec 32} {tail : Nat → Option Tail}

/-! ## The timers that are due -/

/-- The comparison of `rt_timer_check` finds the timers that have at most one
tick left, also across a wrap. -/
theorem due_iff (hlt : k.left (k.tick - 1) t < (rtTickMax / 2).toNat) :
    k.tick - (k.thread t).threadTimer.timeoutTick < rtTickMax / 2 ↔ k.left (k.tick - 1) t ≤ 1 := by
  rw [half_eq, left] at hlt
  rw [BitVec.lt_def, half_eq, left]
  have htick := k.tick.isLt
  have htimeout := (k.thread t).threadTimer.timeoutTick.isLt
  simp only [BitVec.toNat_sub, show (1 : BitVec 32).toNat = 1 from rfl] at *
  omega

/-- A tick later there is one tick less left. -/
theorem left_succ (now : BitVec 32) (hlt : 0 < k.left (now - 1) t) :
    k.left now t = k.left (now - 1) t - 1 := by
  rw [left] at hlt
  rw [left, left]
  have htick := now.isLt
  have htimeout := (k.thread t).threadTimer.timeoutTick.isLt
  simp only [BitVec.toNat_sub, show (1 : BitVec 32).toNat = 1 from rfl] at *
  omega

/-- Where no timer is due any more, the timers are right for the new tick. -/
theorem Timers.next (ht : Timers (now - 1) k)
    (hlate : ∀ t, (k.thread t).threadTimer.activated = true → 1 < k.left (now - 1) t) :
    Timers now k where
  mem_iff := ht.mem_iff
  nodup := ht.nodup
  suspended := ht.suspended
  left_lt t hactive := by
    have hlt := ht.left_lt t hactive
    rw [left_succ now (Nat.zero_lt_of_lt (hlate t hactive))]
    omega
  sorted := by
    refine ht.sorted.imp_of_mem fun ha hb hle => ?_
    rw [left_succ now (Nat.zero_lt_of_lt (hlate _ ((ht.mem_iff _).mp ha))),
      left_succ now (Nat.zero_lt_of_lt (hlate _ ((ht.mem_iff _).mp hb)))]
    omega

/-- No timer is due at the tick there is. -/
def NoneDue (k : Kernel) : Prop :=
  ∀ t, (k.thread t).threadTimer.activated = true → 1 < k.left (k.tick - 1) t

theorem Timers.noneDue_of_nil (ht : Timers now k) (hnil : k.timerList = []) : NoneDue k := by
  intro t hactive
  rw [← ht.mem_iff, hnil] at hactive
  exact absurd hactive List.not_mem_nil

/-! ## `rt_timer_check` -/

/-- What a thread is when its timer has run down. -/
def timedOut (th : Thread) : Thread :=
  { th with
    stat := .ready, error := .timeout, threadTimer := { th.threadTimer with activated := false } }

/-- Some of the threads whose timers are due have been woken. -/
structure Fired (k0 k : Kernel) : Prop where
  tick : k.tick = k0.tick
  schedulerLockNest : k.schedulerLockNest = k0.schedulerLockNest
  value : ∀ i, (k.sem i).value = (k0.sem i).value
  thread : ∀ t, k.thread t = k0.thread t ∨ ((k0.thread t).threadTimer.activated = true ∧
    k0.left (k0.tick - 1) t ≤ 1 ∧ k.thread t = timedOut (k0.thread t))
  current : k = k0 ∨ k.schedulerLockNest = 0 ∧ Foremost k k.currentThread ∨
    k.schedulerLockNest ≠ 0 ∧ k.currentThread = k0.currentThread

theorem Fired.refl (k : Kernel) : Fired k k := ⟨rfl, rfl, fun _ => rfl, fun _ => .inl rfl, .inl rfl⟩

/-- What the scheduler finds when a timer has run down. -/
theorem fireTimer_current (hq : Queues k) (hstat : (k.thread t).stat = .suspend) :
    (k.fireTimer t).schedulerLockNest = 0 ∧ Foremost (k.fireTimer t) (k.fireTimer t).currentThread ∨
      (k.fireTimer t).schedulerLockNest ≠ 0 ∧ (k.fireTimer t).currentThread = k.currentThread := by
  have hlock := (wakes_fireTimer k t).schedulerLockNest
  have hthread := (wakes_fireTimer k t).thread
  have hqueues := hq.fireTimer hstat
  obtain ⟨k1, hk1, hcurrent⟩ : ∃ k1 : Kernel,
      k.fireTimer t = k1.rtSchedule ∧ k1.currentThread = k.currentThread :=
    ⟨_, rfl, rfl⟩
  obtain ⟨c, hc⟩ := rtSchedule_eq k1
  rw [hk1] at hlock hthread hqueues ⊢
  have hlock1 : k1.rtSchedule.schedulerLockNest = k1.schedulerLockNest := by rw [hc]
  by_cases hzero : k1.schedulerLockNest = 0
  · have hq1 : Queues k1 := by
      rw [hc] at hqueues
      exact hqueues.unseen ⟨fun _ => .refl _, rfl, rfl⟩
    have hready : (k1.thread t).stat = .ready := by
      rw [hc] at hthread
      show (({ k1 with currentThread := c } : Kernel).thread t).stat = .ready
      rw [hthread, Function.update_self]
    obtain ⟨c', hc', hf⟩ := hq1.schedule hzero hready
    refine .inl ⟨hlock1.trans hzero, ?_⟩
    rw [hc']
    exact ⟨hf.first, hf.highest⟩
  · refine .inr ⟨fun h => hzero (hlock1.symm.trans h), ?_⟩
    rw [rtSchedule, if_neg hzero, hcurrent]

/-- Firing a timer that is due wakes its thread with a timeout and no other. -/
theorem Fired.fireTimer (hf : Fired k0 k) (hq : Queues k) (ht : Timers (k.tick - 1) k)
    (hactive : (k.thread t).threadTimer.activated = true) (hdue : k.left (k.tick - 1) t ≤ 1) :
    Fired k0 (k.fireTimer t) := by
  have hwakes := wakes_fireTimer k t
  have hold : k.thread t = k0.thread t := by
    refine (hf.thread t).resolve_right fun h => ?_
    rw [h.2.2] at hactive
    exact Bool.false_ne_true hactive
  refine ⟨hwakes.tick.trans hf.tick, hwakes.schedulerLockNest.trans hf.schedulerLockNest,
    fun i => by rw [hwakes.sem, hf.value], fun u => ?_, ?_⟩
  · by_cases hut : u = t
    · rw [hut, hwakes.thread, Function.update_self, ← hold]
      refine .inr ⟨hactive, ?_, rfl⟩
      rwa [left, ← hold, ← hf.tick]
    · rw [hwakes.thread, Function.update_of_ne hut]
      exact hf.thread u
  · rcases fireTimer_current (t := t) hq (ht.suspended t hactive) with h | h
    · exact .inr (.inl h)
    · refine .inr (.inr ⟨h.1, h.2.trans ?_⟩)
      rcases hf.current with heq | hforemost | hlocked
      · rw [heq]
      · exact absurd (hwakes.schedulerLockNest.trans hforemost.1) h.1
      · exact hlocked.2

/-- What the loop has before it, and what it has done. -/
structure Checking (tail : Nat → Option Tail) (k0 k : Kernel) : Prop where
  queues : Queues k
  timers : Timers (k.tick - 1) k
  waits : Waits tail k
  fired : Fired k0 k

/-- **One round of the loop** of `rt_timer_check` keeps what it has before it. -/
theorem Checking.fireTimer (h : Checking tail k0 k)
    (hactive : (k.thread t).threadTimer.activated = true)
    (hdue : k.left (k.tick - 1) t ≤ 1) : Checking tail k0 (k.fireTimer t) where
  queues := h.queues.fireTimer (h.timers.suspended t hactive)
  timers := (wakes_fireTimer k t).tick ▸ h.timers.wakes (wakes_fireTimer k t)
  waits := h.waits.wakes (wakes_fireTimer k t)
  fired := h.fired.fireTimer h.queues h.timers hactive hdue

/-- **The loop of `rt_timer_check`** wakes the threads whose timers are due and
leaves none due, with fuel for the timers in the list. -/
theorem timerCheckLoop_spec (fuel : Nat) : ∀ k, Checking tail k0 k → k.timerList.length ≤ fuel →
    Checking tail k0 (timerCheckLoop fuel k) ∧ NoneDue (timerCheckLoop fuel k) := by
  induction fuel with
  | zero =>
    intro k h hfuel
    exact ⟨h, h.timers.noneDue_of_nil (List.eq_nil_of_length_eq_zero (Nat.le_zero.mp hfuel))⟩
  | succ fuel ih =>
    intro k h hfuel
    rw [timerCheckLoop]
    split
    · next hnil => exact ⟨h, h.timers.noneDue_of_nil hnil⟩
    · next t rest hlist =>
      have hactive : (k.thread t).threadTimer.activated = true :=
        (h.timers.mem_iff t).mp (hlist ▸ List.mem_cons_self)
      have hdue := due_iff (h.timers.left_lt t hactive)
      split
      · next hcond =>
        refine ih _ (h.fireTimer hactive (hdue.mp hcond)) ?_
        rw [(wakes_fireTimer k t).timerList, hlist, List.erase_cons_head]
        rw [hlist, List.length_cons] at hfuel
        exact Nat.le_of_succ_le_succ hfuel
      · next hcond =>
        -- the first one is not due, and so none behind it
        refine ⟨h, fun u hu => ?_⟩
        have hfirst : 1 < k.left (k.tick - 1) t := Nat.not_le.mp fun hle => hcond (hdue.mpr hle)
        have hsorted := h.timers.sorted
        rw [← h.timers.mem_iff, hlist] at hu
        rw [hlist] at hsorted
        rcases List.mem_cons.mp hu with rfl | hu
        · exact hfirst
        · exact Nat.lt_of_lt_of_le hfirst (List.rel_of_pairwise_cons hsorted hu)

/-- The threads whose timers are due are woken, and no others. -/
theorem rtTimerCheck_spec (hq : Queues k) (ht : Timers (k.tick - 1) k) (hw : Waits tail k) :
    Queues k.rtTimerCheck ∧ Timers k.tick k.rtTimerCheck ∧ Waits tail k.rtTimerCheck ∧
      Fired k k.rtTimerCheck ∧ ∀ t, (k.thread t).threadTimer.activated = true →
        k.left (k.tick - 1) t ≤ 1 → k.rtTimerCheck.thread t = timedOut (k.thread t) := by
  have hstart : Checking tail k k := ⟨hq, ht, hw, .refl k⟩
  obtain ⟨h, hnone⟩ := timerCheckLoop_spec k.timerList.length k hstart (Nat.le_refl _)
  have htimers : Timers (k.tick - 1) k.rtTimerCheck := h.fired.tick ▸ h.timers
  refine ⟨h.queues, htimers.next fun t hactive => h.fired.tick ▸ hnone t hactive, h.waits, h.fired,
    fun t hactive hdue => ?_⟩
  rcases h.fired.thread t with hsame | ⟨-, -, hout⟩
  · have hlate := hnone t (hsame ▸ hactive)
    rw [left, hsame, h.fired.tick] at hlate
    exact absurd hdue (Nat.not_le.mpr hlate)
  · exact hout

/-! ## The time slice -/

/-- The time slices have changed, and maybe whose turn it is. -/
structure Sliced (k k' : Kernel) : Prop where
  thread : ∀ t, k'.thread t = { k.thread t with remainingTick := (k'.thread t).remainingTick }
  sem : ∀ i, k'.sem i = k.sem i
  timerList : k'.timerList = k.timerList
  tick : k'.tick = k.tick
  schedulerLockNest : k'.schedulerLockNest = k.schedulerLockNest
  current : Unseen k k' ∧ k'.currentThread = k.currentThread ∨
    k'.schedulerLockNest = 0 ∧ Foremost k' k'.currentThread ∨
    k'.schedulerLockNest ≠ 0 ∧ k'.currentThread = k.currentThread

/-- A yield changes the ready lists only. -/
theorem rtThreadYield_same (hw : Waits tail k) : k.rtThreadYield.1.thread = k.thread ∧
    (∀ i, k.rtThreadYield.1.sem i = k.sem i) ∧ k.rtThreadYield.1.timerList = k.timerList ∧
    Keeps k k.rtThreadYield.1 ∧
    (k.rtThreadYield.2 = true → (k.thread k.currentThread).stat = .ready) ∧
    (k.rtThreadYield.2 = false → k.rtThreadYield.1 = k) := by
  unfold rtThreadYield
  dsimp only
  split
  · next hcond =>
    have hstat : (k.thread k.currentThread).stat ≠ .suspend := by rw [hcond.1]; decide
    exact ⟨rfl, hw.sem_erase hstat, rfl, ⟨rfl, rfl, rfl⟩, fun _ => hcond.1, nofun⟩
  · exact ⟨rfl, fun _ => rfl, rfl, ⟨rfl, rfl, rfl⟩, nofun, fun _ => rfl⟩

theorem setRemaining_same (k : Kernel) (t : Nat) (r : BitVec 32) (u : Nat) :
    (k.setThread t { k.thread t with remainingTick := r }).thread u =
      { k.thread u with remainingTick :=
        ((k.setThread t { k.thread t with remainingTick := r }).thread u).remainingTick } := by
  rw [thread_setThread]
  by_cases hut : u = t
  · rw [hut, Function.update_self]
  · rw [Function.update_of_ne hut]

/-- The time slice of a thread plays no part in what waits. -/
theorem Waits.setRemaining (hw : Waits tail k) (t : Nat) (r : BitVec 32) :
    Waits tail (k.setThread t { k.thread t with remainingTick := r }) := by
  refine hw.same (fun _ => rfl) (fun u => ?_) fun u _ => ?_
  · rw [setRemaining_same]
  · rw [setRemaining_same]
    exact ⟨rfl, rfl, rfl⟩

/-- The scheduler does not look at the time slice. -/
theorem unseen_setRemaining (k : Kernel) (t : Nat) (r : BitVec 32) :
    Unseen k (k.setThread t { k.thread t with remainingTick := r }) :=
  unseen_setThread ⟨rfl, rfl, rfl, rfl⟩

theorem sliced_setRemaining (k : Kernel) (t : Nat) (r : BitVec 32) :
    Sliced k (k.setThread t { k.thread t with remainingTick := r }) :=
  ⟨setRemaining_same k t r, fun _ => rfl, rfl, rfl, rfl, .inl ⟨unseen_setRemaining k t r, rfl⟩⟩

/-- The slice is over: the next one of the same priority, if there is one. -/
theorem sliced_yield (hq : Queues k) (hw : Waits tail k) :
    Queues (match k.rtThreadYield with | (k, true) => k.rtSchedule | (k, false) => k) ∧
      Sliced k (match k.rtThreadYield with | (k, true) => k.rtSchedule | (k, false) => k) := by
  obtain ⟨hthread, hsem, hlist, hkeeps, hready, hsame⟩ := rtThreadYield_same hw
  have hqy := hq.rtThreadYield
  rcases hyield : k.rtThreadYield with ⟨k1, goes⟩
  rw [hyield] at hthread hsem hlist hkeeps hready hsame hqy
  cases goes with
  | false =>
    obtain rfl := hsame rfl
    exact ⟨hq, fun _ => rfl, fun _ => rfl, rfl, rfl, rfl, .inl ⟨.refl _, rfl⟩⟩
  | true =>
    have hself : (k1.thread k.currentThread).stat = .ready := by rw [hthread]; exact hready rfl
    refine ⟨hqy.unseen (unseen_rtSchedule k1), ?_⟩
    by_cases hlock : k1.schedulerLockNest = 0
    · obtain ⟨c, hc, hf⟩ := hqy.schedule hlock hself
      show Sliced k k1.rtSchedule
      rw [hc]
      exact ⟨fun t => by rw [← hthread], hsem, hlist, hkeeps.tick, hkeeps.schedulerLockNest,
        .inr (.inl ⟨hlock, hf.first, hf.highest⟩)⟩
    · show Sliced k k1.rtSchedule
      rw [rtSchedule, if_neg hlock]
      exact ⟨fun t => by rw [← hthread], hsem, hlist, hkeeps.tick, hkeeps.schedulerLockNest,
        .inr (.inr ⟨hlock, hkeeps.currentThread⟩)⟩

/-- Counting a slice down before a change of slices is such a change. -/
theorem Sliced.after {t : Nat} {r : BitVec 32}
    (h : Sliced (k.setThread t { k.thread t with remainingTick := r }) k') : Sliced k k' where
  thread u := by rw [h.thread, setRemaining_same]
  sem := h.sem
  timerList := h.timerList
  tick := h.tick
  schedulerLockNest := h.schedulerLockNest
  current := h.current.imp_left fun hsame => ⟨(unseen_setRemaining k t r).trans hsame.1, hsame.2⟩

/-- The end of a time slice keeps the lists right. -/
theorem checkTimeSlice_spec (hq : Queues k) (hw : Waits tail k) :
    Queues k.checkTimeSlice ∧ Sliced k k.checkTimeSlice := by
  unfold checkTimeSlice
  dsimp only
  have hq1 := hq.unseen (unseen_setRemaining k k.currentThread
    ((k.thread k.currentThread).remainingTick - 1))
  have hw1 := hw.setRemaining k.currentThread ((k.thread k.currentThread).remainingTick - 1)
  split
  · obtain ⟨hq3, hsliced⟩ := sliced_yield (hq1.unseen (unseen_setRemaining _ k.currentThread _))
      (hw1.setRemaining k.currentThread _)
    exact ⟨hq3, hsliced.after.after⟩
  · exact ⟨hq1, sliced_setRemaining _ _ _⟩

/-- Time slices do not change the timers. -/
theorem Sliced.timers (h : Sliced k k') (ht : Timers now k) : Timers now k' :=
  ht.same (sameTimers (fun t => by rw [h.thread]) h.timerList)
    fun t hactive => by rw [h.thread]; exact ht.suspended t hactive

/-- Time slices do not change what waits. -/
theorem Sliced.waits (h : Sliced k k') (hw : Waits tail k) : Waits tail k' := by
  refine hw.same h.sem (fun u => ?_) fun u _ => ?_
  · rw [h.thread]
  · rw [h.thread]
    exact ⟨rfl, rfl, rfl⟩

/-! ## `rt_tick_increase` -/

/-- What the tick interrupt does to the threads and to what runs. -/
structure Ticked (k k' : Kernel) : Prop where
  tick : k'.tick = k.tick + 1
  schedulerLockNest : k'.schedulerLockNest = k.schedulerLockNest
  value : ∀ i, (k'.sem i).value = (k.sem i).value
  due : ∀ t, (k.thread t).threadTimer.activated = true → k.left k.tick t ≤ 1 →
    k'.thread t = { timedOut (k.thread t) with remainingTick := (k'.thread t).remainingTick }
  others : ∀ t, ((k.thread t).threadTimer.activated = true → 1 < k.left k.tick t) →
    k'.thread t = { k.thread t with remainingTick := (k'.thread t).remainingTick }
  current : Unseen k k' ∧ k'.currentThread = k.currentThread ∨
    k'.schedulerLockNest = 0 ∧ Foremost k' k'.currentThread ∨
    k'.schedulerLockNest ≠ 0 ∧ k'.currentThread = k.currentThread

/-- **The tick interrupt keeps every list right** and does what `Ticked` says. -/
theorem rtTickIncrease_spec (hq : Queues k) (ht : Timers k.tick k) (hw : Waits tail k) :
    Queues k.rtTickIncrease ∧ Timers k.rtTickIncrease.tick k.rtTickIncrease ∧
      Waits tail k.rtTickIncrease ∧ Ticked k k.rtTickIncrease := by
  obtain ⟨k1, hk1⟩ : ∃ k1 : Kernel, k1 = { k with tick := k.tick + 1 } := ⟨_, rfl⟩
  have hnow : k1.tick - 1 = k.tick := by rw [hk1]; exact BitVec.add_sub_cancel _ _
  have hq1 : Queues k1 := by rw [hk1]; exact hq.unseen ⟨fun _ => .refl _, rfl, rfl⟩
  have hw1 : Waits tail k1 := by
    rw [hk1]
    exact hw.same (fun _ => rfl) (fun _ => .rfl) fun _ _ => ⟨rfl, rfl, rfl⟩
  have ht1 : Timers k.tick k1 := by
    rw [hk1]
    exact ht.same (sameTimers (fun _ => rfl) rfl) ht.suspended
  obtain ⟨hq2, hsliced⟩ := checkTimeSlice_spec hq1 hw1
  have ht2 : Timers (k1.checkTimeSlice.tick - 1) k1.checkTimeSlice := by
    rw [hsliced.tick, hnow]
    exact hsliced.timers ht1
  obtain ⟨hq3, ht3, hw3, hfired, hdue⟩ := rtTimerCheck_spec hq2 ht2 (hsliced.waits hw1)
  have heq : k.rtTickIncrease = k1.checkTimeSlice.rtTimerCheck := by rw [hk1]; rfl
  have hthread1 : k1.thread = k.thread := by rw [hk1]
  have hleft : ∀ t, k1.checkTimeSlice.left (k1.checkTimeSlice.tick - 1) t = k.left k.tick t := by
    intro t
    rw [left, hsliced.thread, hsliced.tick, hnow, hthread1, left]
  rw [heq]
  refine ⟨hq3, hfired.tick.symm ▸ ht3, hw3, ?_, ?_, fun i => ?_, fun t hactive hle => ?_,
    fun t hlate => ?_, ?_⟩
  · rw [hfired.tick, hsliced.tick, hk1]
  · rw [hfired.schedulerLockNest, hsliced.schedulerLockNest, hk1]
  · rw [hfired.value, hsliced.sem, hk1]
  · rw [hdue t (by rw [hsliced.thread, hthread1]; exact hactive) (by rw [hleft]; exact hle),
      hsliced.thread, hthread1]
    rfl
  · rcases hfired.thread t with hsame | ⟨hactive, hle, -⟩
    · rw [hsame, hsliced.thread, hthread1]
    · rw [hsliced.thread, hthread1] at hactive
      rw [hleft] at hle
      exact absurd hle (Nat.not_le.mpr (hlate hactive))
  · have hslicedCurrent := hsliced.current
    rw [hk1] at hslicedCurrent
    rcases hfired.current with hsame | hforemost | hlocked
    · rw [hsame, hk1]
      exact hslicedCurrent.imp_left fun h =>
        ⟨⟨h.1.thread, h.1.priorityTable, h.1.readyPriorityGroup⟩, h.2⟩
    · exact .inr (.inl hforemost)
    · refine .inr (.inr ⟨hlocked.1, hlocked.2.trans ?_⟩)
      have hlock := hfired.schedulerLockNest ▸ hlocked.1
      rw [hk1] at hlock ⊢
      rcases hslicedCurrent with h | h | h
      · exact h.2
      · exact absurd h.1 hlock
      · exact h.2

end Kernel

end Ch583Kbd.Rtt
