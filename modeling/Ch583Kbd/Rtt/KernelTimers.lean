/-
Ch583Kbd.Rtt.KernelTimers — the list of timers.

The ticks wrap around, so a timer is told by the ticks it has left. `Timers
now k`: at the tick `now`, less than half of the ticks there are, and the
list has the timers in the order of what they have left. A thread whose
timer runs is suspended.

`rt_timer_check` comes a tick later. It takes from the front of the list
what is due by then (`Due`), and wakes these threads.
-/
import Ch583Kbd.Lib.StableInsert
import Ch583Kbd.Rtt.KernelQueues

namespace Ch583Kbd.Rtt

open Ch583Kbd.Lib

namespace Kernel

variable {k k' : Kernel} {t u : Nat} {now : BitVec 32}

/-- The ticks that a timer has left. -/
def left (k : Kernel) (now : BitVec 32) (t : Nat) : Nat :=
  ((k.thread t).threadTimer.timeoutTick - now).toNat

/-- The timer list has the activated timers, once each, in the order of the
ticks they have left; their threads are suspended. -/
structure Timers (now : BitVec 32) (k : Kernel) : Prop where
  mem_iff : ∀ t, t ∈ k.timerList ↔ (k.thread t).threadTimer.activated = true
  nodup : k.timerList.Nodup
  suspended : ∀ t, (k.thread t).threadTimer.activated = true → (k.thread t).stat = .suspend
  left_lt : ∀ t, (k.thread t).threadTimer.activated = true → k.left now t < (rtTickMax / 2).toNat
  sorted : k.timerList.Pairwise fun t u => k.left now t ≤ k.left now u

/-- The same timers run, in the same list. -/
structure SameTimers (k k' : Kernel) : Prop where
  activated : ∀ t, (k'.thread t).threadTimer.activated = (k.thread t).threadTimer.activated
  timeoutTick : ∀ t, (k'.thread t).threadTimer.timeoutTick = (k.thread t).threadTimer.timeoutTick
  timerList : k'.timerList = k.timerList

theorem sameTimers (htimer : ∀ t, (k'.thread t).threadTimer = (k.thread t).threadTimer)
    (hlist : k'.timerList = k.timerList) : SameTimers k k' :=
  ⟨fun t => by rw [htimer], fun t => by rw [htimer], hlist⟩

/-- The ticks left depend on the timers only. -/
theorem SameTimers.left (h : SameTimers k k') (now : BitVec 32) (t : Nat) :
    k'.left now t = k.left now t := by
  rw [Kernel.left, h.timeoutTick, Kernel.left]

/-- The same timers stay right while their threads stay suspended. -/
theorem Timers.same (ht : Timers now k) (h : SameTimers k k')
    (hsuspended : ∀ t, (k.thread t).threadTimer.activated = true → (k'.thread t).stat = .suspend) :
    Timers now k' where
  mem_iff t := by
    rw [h.timerList, h.activated]
    exact ht.mem_iff t
  nodup := h.timerList ▸ ht.nodup
  suspended t hactive := hsuspended t (h.activated t ▸ hactive)
  left_lt t hactive := by
    rw [h.left]
    exact ht.left_lt t (h.activated t ▸ hactive)
  sorted := by
    rw [h.timerList]
    exact ht.sorted.imp fun hle => by rwa [h.left, h.left]

/-! ## Starting and stopping -/

theorem half_eq : (rtTickMax / 2).toNat = 2147483647 := rfl

/-- The comparison of `rt_timer_start`, for timers that have less than half of
the ticks left. -/
theorem later_iff {a b now : BitVec 32} (ha : (a - now).toNat < (rtTickMax / 2).toNat)
    (hb : (b - now).toNat < (rtTickMax / 2).toNat) :
    (b - a ≠ 0 ∧ b - a < rtTickMax / 2) ↔ (a - now).toNat < (b - now).toNat := by
  rw [half_eq] at ha hb
  have hne : b - a ≠ 0 ↔ (b - a).toNat ≠ 0 := not_congr BitVec.toNat_inj.symm
  rw [hne, BitVec.lt_def, half_eq]
  have hnow := now.isLt
  have ha32 := a.isLt
  have hb32 := b.isLt
  simp only [BitVec.toNat_sub] at *
  omega

/-- The search of `rt_timer_start` is an insertion behind the timers that end no
later, wrapped ticks included. -/
theorem insertTimer_eq {l : List Nat} (ht : k.left now t < (rtTickMax / 2).toNat)
    (hl : ∀ u ∈ l, k.left now u < (rtTickMax / 2).toNat) :
    k.insertTimer t l = insertLast (k.left now) t l := by
  induction l with
  | nil => rfl
  | cons p l ih =>
    have hrest := ih fun u hu => hl u (List.mem_cons_of_mem _ hu)
    have hlater : ((k.thread p).threadTimer.timeoutTick - (k.thread t).threadTimer.timeoutTick ≠ 0 ∧
        (k.thread p).threadTimer.timeoutTick - (k.thread t).threadTimer.timeoutTick <
          rtTickMax / 2) ↔
        k.left now t < k.left now p := later_iff ht (hl p List.mem_cons_self)
    rw [insertTimer, insertLast, hrest]
    split
    · next hzero => rw [if_neg fun hlt => (hlater.mpr hlt).1 hzero]
    · next hne =>
      split
      · next hlt => rw [if_pos (hlater.mp ⟨hne, hlt⟩)]
      · next hge => rw [if_neg fun hlt => hge (hlater.mpr hlt).2]

/-- Starting a timer sets when it ends and activates it. -/
theorem thread_rtTimerStart (k : Kernel) (t : Nat) : (k.rtTimerStart t).thread =
    Function.update k.thread t { k.thread t with threadTimer :=
      ⟨true, (k.thread t).threadTimer.initTick, k.tick + (k.thread t).threadTimer.initTick⟩ } := by
  simp [rtTimerStart, setTimer, setThread, rtTimerRemove]

theorem thread_setTimer (k : Kernel) (t : Nat) (timer : Timer) : (k.setTimer t timer).thread =
    Function.update k.thread t { k.thread t with threadTimer := timer } := rfl

/-- Starting the timer of a suspended thread keeps the timer list right. -/
theorem Timers.start (ht : Timers k.tick k) (hstat : (k.thread t).stat = .suspend)
    (hlt : (k.thread t).threadTimer.initTick < rtTickMax / 2) :
      Timers k.tick (k.rtTimerStart t) := by
  have hself : ((k.rtTimerStart t).thread t).threadTimer =
      ⟨true, (k.thread t).threadTimer.initTick, k.tick + (k.thread t).threadTimer.initTick⟩ := by
    rw [thread_rtTimerStart, Function.update_self]
  have hother : ∀ u, u ≠ t → (k.rtTimerStart t).thread u = k.thread u := fun u hu => by
    rw [thread_rtTimerStart, Function.update_of_ne hu]
  have hleft : (k.rtTimerStart t).left k.tick t = (k.thread t).threadTimer.initTick.toNat := by
    rw [left, hself, BitVec.add_comm, BitVec.add_sub_cancel]
  have hleftOther : ∀ u, u ≠ t → (k.rtTimerStart t).left k.tick u = k.left k.tick u :=
    fun u hu => by
    rw [left, hother u hu, left]
  have hbound : ∀ u, u = t ∨ u ∈ k.timerList →
      (k.rtTimerStart t).left k.tick u < (rtTickMax / 2).toNat := by
    intro u hu
    by_cases hut : u = t
    · rw [hut, hleft]
      exact BitVec.lt_def.mp hlt
    · rw [hleftOther u hut]
      exact ht.left_lt u ((ht.mem_iff u).mp (hu.resolve_left hut))
  -- all timeouts are less than half the range away, so that `insertTimer` compares
  -- the ticks that are left
  have hlist : (k.rtTimerStart t).timerList =
      insertLast ((k.rtTimerStart t).left k.tick) t (k.timerList.erase t) := by
    obtain ⟨k1, hk1⟩ : ∃ k1, k1 = (k.rtTimerRemove t).setTimer t { (k.thread t).threadTimer with
      activated := false
      timeoutTick := k.tick + (k.thread t).threadTimer.initTick } := ⟨_, rfl⟩
    have hsame : k1.left k.tick = (k.rtTimerStart t).left k.tick := by
      funext u
      by_cases hut : u = t
      · rw [hut, left, left, hself, hk1, thread_setTimer, Function.update_self]
      · rw [left, left, hother u hut, hk1, thread_setTimer, Function.update_of_ne hut]
        rfl
    have hinsert : k1.insertTimer t (k.timerList.erase t) =
        insertLast (k1.left k.tick) t (k.timerList.erase t) := by
      refine insertTimer_eq ?_ fun u hu => ?_
      · rw [hsame]
        exact hbound t (.inl rfl)
      · rw [hsame]
        exact hbound u (.inr (List.mem_of_mem_erase hu))
    rw [← hsame, ← hinsert, hk1]
    rfl
  have herase : (k.timerList.erase t).Pairwise fun a b =>
      (k.rtTimerStart t).left k.tick a ≤ (k.rtTimerStart t).left k.tick b := by
    refine (ht.sorted.sublist List.erase_sublist).imp_of_mem fun ha hb hle => ?_
    rwa [hleftOther _ (ht.nodup.mem_erase_iff.mp ha).1,
      hleftOther _ (ht.nodup.mem_erase_iff.mp hb).1]
  refine ⟨fun u => ?_, ?_, fun u hactive => ?_, fun u hactive => ?_, ?_⟩
  · rw [hlist, mem_insertLast, ht.nodup.mem_erase_iff]
    by_cases hut : u = t
    · rw [hut, hself]
      exact iff_of_true (.inl rfl) rfl
    · rw [or_iff_right hut, and_iff_right hut, hother u hut]
      exact ht.mem_iff u
  · rw [hlist]
    exact nodup_insertLast (ht.nodup.not_mem_erase) (ht.nodup.erase t)
  · by_cases hut : u = t
    · rw [hut, thread_rtTimerStart, Function.update_self]
      exact hstat
    · rw [hother u hut] at hactive ⊢
      exact ht.suspended u hactive
  · by_cases hut : u = t
    · exact hbound u (.inl hut)
    · rw [hother u hut] at hactive
      exact hbound u (.inr ((ht.mem_iff u).mpr hactive))
  · rw [hlist]
    exact pairwise_insertLast herase

theorem thread_rtTimerStop (k : Kernel) (t : Nat) : (k.rtTimerStop t).thread =
    Function.update k.thread t { k.thread t with
      threadTimer := { (k.thread t).threadTimer with activated := false } } := by
  unfold rtTimerStop
  split
  · rfl
  · next hoff =>
    have hsame : { (k.thread t).threadTimer with activated := false } =
        (k.thread t).threadTimer := by
      rw [← Bool.not_eq_true _ |>.mp hoff]
    rw [hsame]
    exact (Function.update_eq_self t k.thread).symm

/-- Stopping a timer takes it out of the list. -/
theorem Timers.timerList_stop (ht : Timers now k) (t : Nat) :
    (k.rtTimerStop t).timerList = k.timerList.erase t := by
  unfold rtTimerStop
  split
  · rfl
  · next hoff => exact (List.erase_of_not_mem fun hmem => hoff ((ht.mem_iff t).mp hmem)).symm

/-- A suspended thread's timer is started, for so many ticks. -/
theorem Timers.startFor (ht : Timers k.tick k) (hstat : (k.thread t).stat = .suspend)
    {tick : BitVec 32} (htick : tick < rtTickMax / 2) :
    Timers k.tick ((k.setTime t tick).rtTimerStart t) := by
  have hsame : SameTimers k (k.setTime t tick) := by
    refine ⟨fun u => ?_, fun u => ?_, rfl⟩
    · by_cases hut : u = t
      · rw [setTime, thread_setTimer, hut, Function.update_self]
      · rw [setTime, thread_setTimer, Function.update_of_ne hut]
    · by_cases hut : u = t
      · rw [setTime, thread_setTimer, hut, Function.update_self]
      · rw [setTime, thread_setTimer, Function.update_of_ne hut]
  have hstats : ∀ u, ((k.setTime t tick).thread u).stat = (k.thread u).stat := by
    intro u
    by_cases hut : u = t
    · rw [setTime, thread_setTimer, hut, Function.update_self]
    · rw [setTime, thread_setTimer, Function.update_of_ne hut]
  have hset : Timers (k.setTime t tick).tick (k.setTime t tick) :=
    ht.same hsame fun u hactive => (hstats u).trans (ht.suspended u hactive)
  refine hset.start ((hstats t).trans hstat) ?_
  rwa [setTime, thread_setTimer, Function.update_self]

/-- A timer started for `tick` ticks ends that many ticks from now. -/
theorem thread_startFor (k : Kernel) (t : Nat) (tick : BitVec 32) :
    ((k.setTime t tick).rtTimerStart t).thread =
      Function.update k.thread t
        { k.thread t with threadTimer := ⟨true, tick, k.tick + tick⟩ } := by
  rw [thread_rtTimerStart, setTime, thread_setTimer, Function.update_self, Function.update_idem]
  rfl

/-- A timer that is no longer activated leaves the list. -/
theorem Timers.drop (ht : Timers now k) (hlist : k'.timerList = k.timerList.erase t)
    (hself : (k'.thread t).threadTimer.activated = false)
    (hother : ∀ u, u ≠ t → k'.thread u = k.thread u) : Timers now k' := by
  have hleft : ∀ u, u ≠ t → k'.left now u = k.left now u := fun u hu => by
    rw [left, hother u hu, left]
  have hne : ∀ u, (k'.thread u).threadTimer.activated = true → u ≠ t := by
    intro u hactive hut
    rw [hut, hself] at hactive
    exact Bool.false_ne_true hactive
  refine ⟨fun u => ?_, hlist ▸ ht.nodup.erase t, fun u hactive => ?_, fun u hactive => ?_, ?_⟩
  · rw [hlist, ht.nodup.mem_erase_iff]
    by_cases hut : u = t
    · rw [hut, hself]
      exact iff_of_false (fun h => h.1 rfl) Bool.false_ne_true
    · rw [and_iff_right hut, hother u hut]
      exact ht.mem_iff u
  · have hut := hne u hactive
    rw [hother u hut] at hactive ⊢
    exact ht.suspended u hactive
  · have hut := hne u hactive
    rw [hleft u hut]
    exact ht.left_lt u (hother u hut ▸ hactive)
  · rw [hlist]
    refine (ht.sorted.sublist List.erase_sublist).imp_of_mem fun ha hb hle => ?_
    rwa [hleft _ (ht.nodup.mem_erase_iff.mp ha).1, hleft _ (ht.nodup.mem_erase_iff.mp hb).1]

/-! ## Suspending and waking -/

/-- A thread that was ready is suspended. -/
structure Suspends (t : Nat) (k k' : Kernel) : Prop where
  thread : k'.thread = Function.update k.thread t { k.thread t with
    stat := .suspend, threadTimer := { (k.thread t).threadTimer with activated := false } }
  sem : ∀ i, k'.sem i = { k.sem i with suspendThread := (k.sem i).suspendThread.erase t }
  timerList : k'.timerList = k.timerList.erase t
  tick : k'.tick = k.tick
  schedulerLockNest : k'.schedulerLockNest = k.schedulerLockNest
  currentThread : k'.currentThread = k.currentThread

/-- A thread is ready, with this error number; it is in no list of those that
wait, and its timer does not run. -/
structure Wakes (t : Nat) (e : Err) (k k' : Kernel) : Prop where
  thread : k'.thread = Function.update k.thread t { k.thread t with
    stat := .ready, error := e, threadTimer :=
      { (k.thread t).threadTimer with activated := false } }
  sem : ∀ i, k'.sem i = { k.sem i with suspendThread := (k.sem i).suspendThread.erase t }
  timerList : k'.timerList = k.timerList.erase t
  tick : k'.tick = k.tick
  schedulerLockNest : k'.schedulerLockNest = k.schedulerLockNest

/-- Suspending a thread stops its timer. -/
theorem Timers.suspends (ht : Timers now k) (h : Suspends t k k') : Timers now k' :=
  ht.drop h.timerList (by rw [h.thread, Function.update_self])
    fun u hu => by rw [h.thread, Function.update_of_ne hu]

/-- Waking a thread stops its timer. -/
theorem Timers.wakes {e : Err} (ht : Timers now k) (h : Wakes t e k k') : Timers now k' :=
  ht.drop h.timerList (by rw [h.thread, Function.update_self])
    fun u hu => by rw [h.thread, Function.update_of_ne hu]

/-- `rt_timer_stop` leaves the semaphores, the tick, the lock and the current
thread. -/
theorem rtTimerStop_same (k : Kernel) (t : Nat) : (k.rtTimerStop t).sem = k.sem ∧
    (k.rtTimerStop t).tick = k.tick ∧ (k.rtTimerStop t).schedulerLockNest = k.schedulerLockNest ∧
    (k.rtTimerStop t).currentThread = k.currentThread := by
  unfold rtTimerStop
  split <;> exact ⟨rfl, rfl, rfl, rfl⟩

/-- `rt_schedule_remove_thread` is about the ready lists. -/
theorem rtScheduleRemoveThread_same (k : Kernel) (t : Nat) :
    (∀ i, (k.rtScheduleRemoveThread t).sem i =
      { k.sem i with suspendThread := (k.sem i).suspendThread.erase t }) ∧
    (k.rtScheduleRemoveThread t).timerList = k.timerList ∧
    (k.rtScheduleRemoveThread t).tick = k.tick ∧
    (k.rtScheduleRemoveThread t).schedulerLockNest = k.schedulerLockNest ∧
    (k.rtScheduleRemoveThread t).currentThread = k.currentThread := by
  unfold rtScheduleRemoveThread
  dsimp only
  split <;> exact ⟨fun _ => rfl, rfl, rfl, rfl, rfl⟩

/-- `rt_thread_suspend` of a ready thread suspends it. -/
theorem Timers.rtThreadSuspend (ht : Timers now k) (hready : (k.thread t).stat = .ready) :
    Suspends t k (k.rtThreadSuspend t) := by
  obtain ⟨hsem, hlist, htick, hlock, hcurrent⟩ := rtScheduleRemoveThread_same k t
  have hset : Timers now (k.rtScheduleRemoveThread t) :=
    ht.same (sameTimers (fun u => by rw [thread_rtScheduleRemoveThread]) hlist)
      fun u hu => by rw [thread_rtScheduleRemoveThread, ht.suspended u hu]
  have hoff : (k.thread t).threadTimer.activated = false := by
    refine Bool.not_eq_true _ |>.mp fun hactive => ?_
    rw [ht.suspended t hactive] at hready
    exact Stat.noConfusion hready
  obtain ⟨k1, hk1⟩ : ∃ k1, k1 = (k.rtScheduleRemoveThread t).setThread t
    { (k.rtScheduleRemoveThread t).thread t with stat := .suspend } := ⟨_, rfl⟩
  have hthread : k1.thread = Function.update k.thread t { k.thread t with stat := .suspend } := by
    rw [hk1, thread_setThread, thread_rtScheduleRemoveThread]
  have heq : k.rtThreadSuspend t = k1.rtTimerStop t := by
    rw [Kernel.rtThreadSuspend, if_neg (not_not.mpr hready), hk1]
  have hstill : k1.rtTimerStop t = k1 := by
    rw [rtTimerStop, hthread, Function.update_self, if_neg (by rw [hoff]; exact Bool.false_ne_true)]
  rw [heq, hstill]
  refine ⟨?_, fun i => ?_, ?_, ?_, ?_, ?_⟩
  · rw [hthread, ← hoff]
  · rw [hk1]
    exact hsem i
  · rw [hk1]
    have hnot : t ∉ k.timerList := fun hmem => by
      rw [ht.mem_iff, hoff] at hmem
      exact Bool.false_ne_true hmem
    rw [List.erase_of_not_mem hnot]
    exact hlist
  · rw [hk1]
    exact htick
  · rw [hk1]
    exact hlock
  · rw [hk1]
    exact hcurrent

/-- `rt_thread_resume` of a suspended thread wakes it, its error number
unchanged. -/
theorem Timers.rtThreadResume (ht : Timers now k) (hstat : (k.thread t).stat = .suspend) :
    Wakes t (k.thread t).error k (k.rtThreadResume t) ∧
      (k.rtThreadResume t).currentThread = k.currentThread := by
  obtain ⟨hsem, htick, hlock, hcurrent⟩ := rtTimerStop_same (k.removeTlist t) t
  have hremoved : Timers now (k.removeTlist t) :=
    ht.same (sameTimers (fun _ => rfl) rfl) ht.suspended
  rw [Kernel.rtThreadResume, if_neg (not_not.mpr hstat)]
  refine ⟨⟨?_, fun i => ?_, hremoved.timerList_stop t, htick, hlock⟩, hcurrent⟩
  · show Function.update ((k.removeTlist t).rtTimerStop t).thread t _ = _
    rw [thread_rtTimerStop, Function.update_self, Function.update_idem]
    rfl
  · show ((k.removeTlist t).rtTimerStop t).sem i = _
    rw [hsem]
    rfl

/-- A timer that fires wakes its thread with a timeout. -/
theorem wakes_fireTimer (k : Kernel) (t : Nat) : Wakes t .timeout k (k.fireTimer t) := by
  obtain ⟨c, hc⟩ := rtSchedule_eq (((((k.rtTimerRemove t).setTimer t
    { (k.thread t).threadTimer with activated := false }).setThread t
      { ((k.rtTimerRemove t).setTimer t
          { (k.thread t).threadTimer with activated := false }).thread t with
        error := .timeout }).removeTlist t).rtScheduleInsertThread t)
  rw [Kernel.fireTimer, Kernel.rtThreadTimeout, hc]
  refine ⟨?_, fun i => rfl, rfl, rfl, rfl⟩
  simp [rtScheduleInsertThread, Kernel.removeTlist, Kernel.setThread, setTimer, rtTimerRemove]

end Kernel

end Ch583Kbd.Rtt
