/-
Ch583Kbd.Rtt.KernelInvariant — what holds after every step of the threads
and the interrupts.

`Sound idle s`: the ready lists, the timers and the lists of the semaphores
are right (`Consistent`), the idle thread is ready, and the current thread is
the first one of the highest priority that is ready, unless the scheduler is
locked or the thread is about to call it.
-/
import Ch583Kbd.Rtt.KernelTick

namespace Ch583Kbd.Rtt

namespace Kernel

variable {k k' : Kernel} {t u i : Nat} {now : BitVec 32} {tail tail' : Nat → Option Tail}

/-! ## The kernel -/

/-- The ready lists, the timer list and the lists of the semaphores are right
for what each thread has before it. -/
structure Consistent (tail : Nat → Option Tail) (k : Kernel) : Prop where
  queues : Queues k
  timers : Timers k.tick k
  waits : Waits tail k

/-- The state of the lists does not depend on which thread is current, nor on
the lock. -/
theorem Consistent.of_eq (h : Consistent tail k) (hthread : k'.thread = k.thread)
    (hsem : k'.sem = k.sem)
    (htable : k'.priorityTable = k.priorityTable)
    (hgroup : k'.readyPriorityGroup = k.readyPriorityGroup) (hlist : k'.timerList = k.timerList)
    (htick : k'.tick = k.tick) : Consistent tail k' where
  queues := h.queues.unseen ⟨fun t => by rw [hthread]; exact .refl _, htable, hgroup⟩
  timers := by
    rw [htick]
    exact h.timers.same (sameTimers (fun t => by rw [hthread]) hlist)
      fun t hactive => by rw [hthread]; exact h.timers.suspended t hactive
  waits := h.waits.same (fun i => by rw [hsem]) (fun u => by rw [hthread])
    fun u _ => by rw [hthread]; exact ⟨rfl, rfl, rfl⟩

/-- `rt_schedule` leaves the lists as they are. -/
theorem Consistent.rtSchedule (h : Consistent tail k) : Consistent tail k.rtSchedule := by
  obtain ⟨c, hc⟩ := rtSchedule_eq k
  rw [hc]
  exact h.of_eq rfl rfl rfl rfl rfl rfl

/-- Only what the threads have before them is another. -/
theorem Consistent.setTail (h : Consistent tail k)
    (htail : ∀ u, (k.thread u).stat = .suspend → tail' u = tail u) : Consistent tail' k :=
  ⟨h.queues, h.timers, h.waits.same (fun _ => rfl) (fun _ => .rfl) fun u hu =>
    ⟨rfl, rfl, htail u hu⟩⟩

/-- Which thread is foremost depends on what the scheduler sees. -/
theorem Foremost.unseen (hf : Foremost k t) (h : Unseen k k') : Foremost k' t where
  first := by
    rw [(h.thread t).currentPriority, h.priorityTable]
    exact hf.first
  highest u hu := by
    rw [(h.thread t).currentPriority, (h.thread u).currentPriority]
    exact hf.highest u ((h.thread u).stat ▸ hu)

/-- A ready thread stays ready when another one is woken. -/
theorem Wakes.ready {e : Err} (h : Wakes t e k k') (hu : (k.thread u).stat = .ready) :
    (k'.thread u).stat = .ready := by
  rw [h.thread]
  by_cases hut : u = t
  · rw [hut, Function.update_self]
  · rw [Function.update_of_ne hut]
    exact hu

/-- A timer runs only while its thread is suspended. -/
theorem Timers.off (ht : Timers now k) (hstat : (k.thread t).stat ≠ .suspend) :
    (k.thread t).threadTimer.activated = false :=
  Bool.not_eq_true _ |>.mp fun hactive => hstat (ht.suspended t hactive)

/-! ## Its functions -/

/-- What `rt_thread_startup` does to a thread. -/
def started (th : Thread) : Thread :=
  { th with
    stat := .ready
    currentPriority := th.initPriority
    numberMask := 1 <<< th.initPriority
    threadTimer := { th.threadTimer with activated := false } }

/-- A thread that was never started is put into its list; no other thread and no
semaphore changes. -/
theorem rtThreadStartup_spec (h : Consistent tail k) (hinit : (k.thread t).stat = .init) :
    Consistent tail (k.rtThreadStartup t) ∧ Keeps k (k.rtThreadStartup t) ∧
      (k.rtThreadStartup t).thread = Function.update k.thread t (started (k.thread t)) ∧
      ∀ i, (k.rtThreadStartup t).sem i = k.sem i := by
  have hstat : (k.thread t).stat ≠ .suspend := by rw [hinit]; decide
  obtain ⟨k1, hk1⟩ : ∃ k1, k1 = k.setThread t { k.thread t with
    currentPriority := (k.thread t).initPriority
    numberMask := 1 <<< (k.thread t).initPriority
    stat := .suspend } := ⟨_, rfl⟩
  have hoff := h.timers.off hstat
  have ht1 : Timers k.tick k1 := by
    refine h.timers.drop (t := t) ?_ ?_ fun u hu => ?_
    · rw [List.erase_of_not_mem fun hmem => ?_, hk1]
      · rfl
      · rw [h.timers.mem_iff, hoff] at hmem
        exact Bool.false_ne_true hmem
    · rw [hk1, thread_setThread, Function.update_self]
      exact hoff
    · rw [hk1, thread_setThread, Function.update_of_ne hu]
  have hwakes := (ht1.rtThreadResume (t := t) (by rw [hk1, thread_setThread, Function.update_self]))
  have heq : k1.rtThreadResume t = k.rtThreadStartup t := by rw [hk1]; rfl
  rw [heq] at hwakes
  have hsem : ∀ i, (k.rtThreadStartup t).sem i = k.sem i := by
    intro i
    rw [hwakes.1.sem, hk1]
    exact h.waits.sem_erase hstat i
  have hthread : (k.rtThreadStartup t).thread =
      Function.update k.thread t (started (k.thread t)) := by
    rw [hwakes.1.thread, hk1, thread_setThread, Function.update_self, Function.update_idem]
    rfl
  have hkeeps : Keeps k (k.rtThreadStartup t) :=
    ⟨hwakes.1.tick.trans (by rw [hk1]; rfl), hwakes.1.schedulerLockNest.trans (by rw [hk1]; rfl),
      hwakes.2.trans (by rw [hk1]; rfl)⟩
  refine ⟨⟨h.queues.rtThreadStartup hinit, hkeeps.tick ▸ ht1.wakes hwakes.1, ?_⟩, hkeeps,
    hthread, hsem⟩
  refine h.waits.same hsem (fun u => ?_) fun u hu => ?_
  · rw [hthread]
    by_cases hut : u = t
    · rw [hut, Function.update_self]
      exact iff_of_false (fun hs => Stat.noConfusion hs) hstat
    · rw [Function.update_of_ne hut]
  · have hut : u ≠ t := fun hut => hstat (hut ▸ hu)
    rw [hthread, Function.update_of_ne hut]
    exact ⟨rfl, rfl, rfl⟩

/-- The kernel just before `rt_thread_exit` calls the scheduler. -/
theorem rtThreadExit_eq (k : Kernel) : ∃ k1 : Kernel, k.rtThreadExit = k1.rtSchedule ∧
    k1.tick = k.tick ∧ k1.schedulerLockNest = k.schedulerLockNest ∧
    k1.timerList = k.timerList.erase k.currentThread ∧
    k1.thread = Function.update k.thread k.currentThread { k.thread k.currentThread with
      stat := .close, threadTimer :=
        { (k.thread k.currentThread).threadTimer with activated := false } } ∧
    ∀ i, k1.sem i =
      { k.sem i with suspendThread := (k.sem i).suspendThread.erase k.currentThread } := by
  obtain ⟨hsem, hlist, htick, hlock, -⟩ := rtScheduleRemoveThread_same k k.currentThread
  refine ⟨_, rfl, htick, hlock, ?_, ?_, hsem⟩
  · show (k.rtScheduleRemoveThread k.currentThread).timerList.erase k.currentThread = _
    rw [hlist]
  · simp [setTimer, rtTimerRemove, Kernel.setThread]

/-- A thread that ends is closed and its timer stopped, and the foremost of the
others runs. -/
theorem rtThreadExit_spec (h : Consistent tail k)
    (hready : (k.thread k.currentThread).stat = .ready)
    (hlock : k.schedulerLockNest = 0) (hu : u ≠ k.currentThread)
    (hother : (k.thread u).stat = .ready) :
    Consistent tail k.rtThreadExit ∧ Foremost k.rtThreadExit k.rtThreadExit.currentThread ∧
      k.rtThreadExit.tick = k.tick ∧ k.rtThreadExit.schedulerLockNest = 0 ∧
      k.rtThreadExit.thread = Function.update k.thread k.currentThread
        { k.thread k.currentThread with
          stat := .close, threadTimer :=
            { (k.thread k.currentThread).threadTimer with activated := false } } ∧
      ∀ i, k.rtThreadExit.sem i = k.sem i := by
  have hstat : (k.thread k.currentThread).stat ≠ .suspend := by rw [hready]; decide
  obtain ⟨k1, heq, htick1, hlock1, hlist1, hthread1, hsem1⟩ := rtThreadExit_eq k
  have hqueues := h.queues.rtThreadExit hready
  rw [heq] at hqueues ⊢
  have hq1 : Queues k1 := by
    obtain ⟨c, hc⟩ := rtSchedule_eq k1
    rw [hc] at hqueues
    exact hqueues.unseen ⟨fun _ => .refl _, rfl, rfl⟩
  have hsem : ∀ i, k1.sem i = k.sem i := fun i => (hsem1 i).trans (h.waits.sem_erase hstat i)
  have h1 : Consistent tail k1 := by
    refine ⟨hq1, ?_, h.waits.same hsem (fun v => ?_) fun v hv => ?_⟩
    · rw [htick1]
      exact h.timers.drop hlist1 (by rw [hthread1, Function.update_self])
        fun v hv => by rw [hthread1, Function.update_of_ne hv]
    · rw [hthread1]
      by_cases hvt : v = k.currentThread
      · rw [hvt, Function.update_self]
        exact iff_of_false (fun hs => Stat.noConfusion hs) hstat
      · rw [Function.update_of_ne hvt]
    · have hvt : v ≠ k.currentThread := fun hvt => hstat (hvt ▸ hv)
      rw [hthread1, Function.update_of_ne hvt]
      exact ⟨rfl, rfl, rfl⟩
  obtain ⟨c, hc, hf⟩ := hq1.schedule (hlock1.trans hlock) (t := u)
    (by rw [hthread1, Function.update_of_ne hu]; exact hother)
  refine ⟨h1.rtSchedule, ?_⟩
  rw [hc]
  exact ⟨⟨hf.first, hf.highest⟩, htick1, hlock1.trans hlock, hthread1, hsem⟩

/-- Resuming a suspended thread takes it out of the list it waits in and keeps
the lists right. -/
theorem Consistent.rtThreadResume (h : Consistent tail k) (hstat : (k.thread t).stat = .suspend) :
    Consistent tail (k.rtThreadResume t) where
  queues := h.queues.rtThreadResume t
  timers := (h.timers.rtThreadResume hstat).1.tick ▸ h.timers.wakes
    (h.timers.rtThreadResume hstat).1
  waits := h.waits.wakes (h.timers.rtThreadResume hstat).1

/-- A yield keeps the lists right. -/
theorem Consistent.rtThreadYield (h : Consistent tail k) : Consistent tail k.rtThreadYield.1 := by
  obtain ⟨hthread, hsem, hlist, hkeeps, -, -⟩ := rtThreadYield_same h.waits
  refine ⟨h.queues.rtThreadYield, ?_, h.waits.same hsem (fun u => by rw [hthread])
    fun u _ => by rw [hthread]; exact ⟨rfl, rfl, rfl⟩⟩
  rw [hkeeps.tick]
  exact h.timers.same (sameTimers (fun t => by rw [hthread]) hlist)
    fun t hactive => by rw [hthread]; exact h.timers.suspended t hactive

/-- A semaphore nobody waits for has another value. -/
theorem Consistent.setValue (h : Consistent tail k) (hnone : (k.sem i).suspendThread = [])
    (v : BitVec 16) :
    Consistent tail { k with sem := Function.update k.sem i { k.sem i with value := v } } :=
  ⟨h.queues.unseen (unseen_sem _ _),
    h.timers.same (sameTimers (fun _ => rfl) rfl) h.timers.suspended,
    h.waits.setValue hnone v⟩

/-- "clear error number of this thread to RT_EOK". -/
theorem Consistent.sleepEnd (h : Consistent tail k)
    (hstat : (k.thread k.currentThread).stat ≠ .suspend) : Consistent tail k.sleepEnd := by
  unfold Kernel.sleepEnd
  dsimp only
  split
  · exact ⟨h.queues.unseen (unseen_setThread ⟨rfl, rfl, rfl, rfl⟩), h.timers.setError _ _,
      h.waits.setError hstat _⟩
  · exact h

end Kernel

open Kernel

/-! ## Threads and interrupts -/

/-- What a thread has behind its call of the scheduler. -/
def Tasks.tail (s : Tasks) (t : Nat) : Option Tail := (s.rest t).bind Rest.tail

/-- The current thread is about to call the scheduler. -/
def Tasks.Scheduling (s : Tasks) : Prop :=
  ∃ tail, s.rest s.kernel.currentThread = some (.schedule tail)

/-- **What holds between two actions.** The kernel is consistent, the idle
thread is ready, and unless the lock is held or a scheduling is due the current
thread is the foremost. -/
structure Sound (idle : Nat) (s : Tasks) : Prop where
  kernel : Consistent s.tail s.kernel
  idle : (s.kernel.thread idle).stat = .ready
  foremost : s.kernel.schedulerLockNest = 0 → ¬ s.Scheduling →
    Foremost s.kernel s.kernel.currentThread
  locked : s.kernel.schedulerLockNest ≠ 0 → (s.kernel.thread s.kernel.currentThread).stat = .ready

variable {s : Tasks} {k : Kernel} {idle t i : Nat} {rest : Option Rest}

/-- A thread that runs, with no scheduling due, is ready. -/
theorem Sound.ready (h : Sound idle s) (hs : ¬ s.Scheduling) :
    (s.kernel.thread s.kernel.currentThread).stat = .ready := by
  by_cases hlock : s.kernel.schedulerLockNest = 0
  · exact h.kernel.queues.ready_of_foremost (h.foremost hlock hs)
  · exact h.locked hlock

/-- A thread in no function is not about to call the scheduler. -/
theorem not_scheduling (hrest : s.rest s.kernel.currentThread = none) : ¬ s.Scheduling := by
  intro hs
  obtain ⟨tail, htail⟩ := hs
  rw [hrest] at htail
  cases htail

@[simp] theorem Tasks.rest_pause (s : Tasks) (k : Kernel) (rest : Option Rest) :
    (s.pause k rest).rest = Function.update s.rest s.kernel.currentThread rest := rfl

/-- Pausing changes what the current thread has before it, and no other's. -/
theorem Tasks.tail_pause (s : Tasks) (k : Kernel) (rest : Option Rest) : (s.pause k rest).tail =
    Function.update s.tail s.kernel.currentThread (rest.bind Rest.tail) := by
  funext t
  by_cases ht : t = s.kernel.currentThread
  · rw [Tasks.tail, ht, rest_pause, Function.update_self, Function.update_self]
  · rw [Tasks.tail, rest_pause, Function.update_of_ne ht, Function.update_of_ne ht, Tasks.tail]

/-- A thread outside of the kernel has nothing before it. -/
theorem Tasks.tail_none (hrest : s.rest s.kernel.currentThread = none) :
    Function.update s.tail s.kernel.currentThread none = s.tail := by
  have hnone : s.tail s.kernel.currentThread = none := by rw [tail, hrest]; rfl
  rw [← hnone]
  exact Function.update_eq_self _ _

/-- A function comes to its call of the scheduler. -/
theorem Sound.schedules {tail : Option Tail}
    (hk : Consistent (Function.update s.tail s.kernel.currentThread tail) k)
    (hidle : (k.thread idle).stat = .ready) (hcurrent : k.currentThread = s.kernel.currentThread)
    (hlocked : k.schedulerLockNest ≠ 0 → (k.thread k.currentThread).stat = .ready) :
    Sound idle (s.pause k (some (.schedule tail))) where
  kernel := by rw [Tasks.tail_pause]; exact hk
  idle := hidle
  foremost _ hs := by
    refine absurd ⟨tail, ?_⟩ hs
    show Function.update s.rest s.kernel.currentThread _ k.currentThread = _
    rw [hcurrent, Function.update_self]
  locked := hlocked

/-- A function returns: its thread is foremost, or the lock is held and it is
ready. -/
theorem Sound.returns (hk : Consistent (Function.update s.tail s.kernel.currentThread none) k)
    (hidle : (k.thread idle).stat = .ready)
    (hforemost : k.schedulerLockNest = 0 → Foremost k k.currentThread)
    (hlocked : k.schedulerLockNest ≠ 0 → (k.thread k.currentThread).stat = .ready) :
    Sound idle (s.pause k none) where
  kernel := by rw [Tasks.tail_pause]; exact hk
  idle := hidle
  foremost hlock _ := hforemost hlock
  locked := hlocked

/-! ## The functions that threads call -/

/-- `rt_thread_startup` of a thread never started keeps the state sound. -/
theorem Sound.call_startup (h : Sound idle s) (hrest : s.rest s.kernel.currentThread = none)
    (hinit : (s.kernel.thread t).stat = .init) : Sound idle (s.call (.startup t)).1 := by
  obtain ⟨hk, hkeeps, hthread, -⟩ := rtThreadStartup_spec h.kernel hinit
  have hother : ∀ u, (s.kernel.thread u).stat = .ready →
      ((s.kernel.rtThreadStartup t).thread u).stat = .ready := by
    intro u hu
    have hut : u ≠ t := fun hut => by rw [hut, hinit] at hu; exact Stat.noConfusion hu
    rw [hthread, Function.update_of_ne hut]
    exact hu
  refine Sound.schedules ?_ (hother idle h.idle) hkeeps.currentThread fun _ => ?_
  · rw [Tasks.tail_none hrest]
    exact hk
  · rw [hkeeps.currentThread]
    exact hother _ (h.ready (not_scheduling hrest))

/-- The exit of a thread other than the idle one keeps the state sound. -/
theorem Sound.call_exit (h : Sound idle s) (hrest : s.rest s.kernel.currentThread = none)
    (hlock : s.kernel.schedulerLockNest = 0) (hidle : s.kernel.currentThread ≠ idle) :
    Sound idle (s.call .exit).1 := by
  obtain ⟨hk, hf, -, hlock', hthread, -⟩ :=
    rtThreadExit_spec h.kernel (h.ready (not_scheduling hrest))
    hlock (Ne.symm hidle) h.idle
  refine Sound.returns ?_ ?_ (fun _ => hf) fun hne => absurd hlock' hne
  · rw [Tasks.tail_none hrest]
    exact hk
  · rw [hthread, Function.update_of_ne (Ne.symm hidle)]
    exact h.idle

/-- `rt_thread_yield` keeps the state sound, whether it moves the thread or not. -/
theorem Sound.call_yield (h : Sound idle s) (hrest : s.rest s.kernel.currentThread = none) :
    Sound idle (s.call .yield).1 := by
  have hns := not_scheduling hrest
  have hk := h.kernel.rtThreadYield
  obtain ⟨hthread, -, -, hkeeps, -, hsame⟩ := rtThreadYield_same h.kernel.waits
  rcases hyield : s.kernel.rtThreadYield with ⟨k, goes⟩
  rw [hyield] at hk hthread hkeeps hsame
  have hcall : (s.call .yield).1 =
      if goes then s.pause k (some (.schedule none)) else s.pause k none := by
    simp only [Tasks.call, hyield]
    cases goes <;> rfl
  rw [hcall]
  cases goes with
  | true =>
    refine Sound.schedules ?_ (by rw [hthread]; exact h.idle) hkeeps.currentThread fun _ => ?_
    · rw [Tasks.tail_none hrest]
      exact hk
    · rw [hthread, hkeeps.currentThread]
      exact h.ready hns
  | false =>
    obtain rfl := hsame rfl
    refine Sound.returns ?_ h.idle (fun hlock => h.foremost hlock hns) h.locked
    rw [Tasks.tail_none hrest]
    exact hk

/-- `rt_thread_sleep` keeps the state sound, up to its `rt_schedule`. -/
theorem Sound.call_sleep {tick : BitVec 32} (h : Sound idle s)
    (hrest : s.rest s.kernel.currentThread = none) (hlock : s.kernel.schedulerLockNest = 0)
    (hidle : s.kernel.currentThread ≠ idle) (htick : tick < rtTickMax / 2) :
    Sound idle (s.call (.sleep tick)).1 := by
  have hready := h.ready (not_scheduling hrest)
  obtain ⟨ht, hkeeps, hthread, -⟩ := h.kernel.timers.rtThreadSleep hready htick
  refine Sound.schedules ⟨h.kernel.queues.rtThreadSleep tick, hkeeps.tick ▸ ht,
    h.kernel.waits.rtThreadSleep h.kernel.timers hready htick⟩ ?_ hkeeps.currentThread
    fun hne => absurd (hkeeps.schedulerLockNest.trans hlock) hne
  rw [hthread, Function.update_of_ne (Ne.symm hidle)]
  exact h.idle

/-- Taking the scheduler lock keeps the state sound. -/
theorem Sound.call_enterCritical (h : Sound idle s) (hrest : s.rest s.kernel.currentThread = none) :
    Sound idle (s.call .enterCritical).1 := by
  refine Sound.returns ?_ h.idle (fun hlock => absurd hlock (Nat.succ_ne_zero _))
    fun _ => h.ready (not_scheduling hrest)
  rw [Tasks.tail_none hrest]
  exact h.kernel.of_eq rfl rfl rfl rfl rfl rfl

/-- Releasing the scheduler lock keeps the state sound: at the last level a
scheduling is due. -/
theorem Sound.call_exitCritical (h : Sound idle s) (hrest : s.rest s.kernel.currentThread = none) :
    Sound idle (s.call .exitCritical).1 := by
  have hready := h.ready (not_scheduling hrest)
  have hk : ∀ nest, Consistent (Function.update s.tail s.kernel.currentThread none)
      { s.kernel with schedulerLockNest := nest } := by
    intro nest
    rw [Tasks.tail_none hrest]
    exact h.kernel.of_eq rfl rfl rfl rfl rfl rfl
  by_cases hnest : s.kernel.schedulerLockNest ≤ 1
  · have hcall : (s.call .exitCritical).1 =
        s.pause { s.kernel with schedulerLockNest := 0 } (some (.schedule none)) := by
      simp only [Tasks.call, rtExitCritical, if_pos hnest]
    rw [hcall]
    exact Sound.schedules (hk 0) h.idle rfl fun _ => hready
  · have hcall : (s.call .exitCritical).1 =
        s.pause { s.kernel with schedulerLockNest := s.kernel.schedulerLockNest - 1 } none := by
      simp only [Tasks.call, rtExitCritical, if_neg hnest]
    rw [hcall]
    refine Sound.returns (hk _) h.idle (fun hlock => ?_) fun _ => hready
    have hzero : s.kernel.schedulerLockNest - 1 = 0 := hlock
    omega

/-- `rt_sem_take` keeps the state sound, whether it returns or waits. -/
theorem Sound.call_semTake {time : Int} (h : Sound idle s)
    (hrest : s.rest s.kernel.currentThread = none)
    (hc : (Call.semTake i time).Allowed idle s.kernel) :
    Sound idle (s.call (.semTake i time)).1 := by
  have hns := not_scheduling hrest
  have hnone := Tasks.tail_none hrest
  by_cases hvalue : (s.kernel.sem i).value = 0
  · by_cases hzero : time = 0
    · have hcall : (s.call (.semTake i time)).1 = s.pause s.kernel none := by
        simp only [Tasks.call, rtSemTake, if_neg (not_not.mpr hvalue), if_pos hzero]
      rw [hcall]
      exact Sound.returns (by rw [hnone]; exact h.kernel) h.idle (fun hlock =>
        h.foremost hlock hns) h.locked
    · obtain ⟨hlock, hidle, hlt⟩ := hc.of_waits hvalue hzero
      obtain ⟨hwaits, ht, hkeeps, hw, hthread, -⟩ := rtSemTake_waits (i := i) h.kernel.waits
        h.kernel.timers (h.ready hns) hvalue hzero hlt
      have hcall : (s.call (.semTake i time)).1 =
          s.pause (s.kernel.rtSemTake i time).1 (some (.schedule (some (.semTake i)))) := by
        rcases htake : s.kernel.rtSemTake i time with ⟨k, taken⟩
        rw [htake] at hwaits
        obtain rfl : taken = .waits := hwaits
        simp only [Tasks.call, htake]
      rw [hcall]
      refine Sound.schedules ⟨h.kernel.queues.rtSemTake i time, hkeeps.tick ▸ ht, hw⟩ ?_
        hkeeps.currentThread fun hne => absurd (hkeeps.schedulerLockNest.trans hlock) hne
      rw [hthread, Function.update_of_ne (Ne.symm hidle)]
      exact h.idle
  · have hcall : (s.call (.semTake i time)).1 = s.pause { s.kernel with
        sem := Function.update s.kernel.sem i
          { s.kernel.sem i with value := (s.kernel.sem i).value - 1 } } none := by
      simp only [Tasks.call, rtSemTake, if_pos hvalue]
    rw [hcall]
    refine Sound.returns ?_ h.idle
      (fun hlock => (h.foremost hlock hns).unseen (unseen_sem _ _)) h.locked
    rw [hnone]
    exact h.kernel.setValue (h.kernel.waits.empty i hvalue) _

/-! ## `rt_sem_release` -/

/-- What `rt_sem_release` does: wake the first thread that waits, or count up. -/
theorem rtSemRelease_cases (k : Kernel) (i : Nat) :
    (∃ t l, (k.sem i).suspendThread = t :: l ∧ k.rtSemRelease i = (k.rtThreadResume t, .ok, true)) ∨
    ((k.sem i).suspendThread = [] ∧ (k.sem i).value < rtSemValueMax ∧
      k.rtSemRelease i = ({ k with
        sem := Function.update k.sem i { k.sem i with value := (k.sem i).value + 1 } },
          .ok, false)) ∨
    ((k.sem i).value = rtSemValueMax ∧ k.rtSemRelease i = (k, .full, false)) := by
  unfold rtSemRelease
  split
  · next t l hlist => exact .inl ⟨t, l, hlist, rfl⟩
  · next hlist =>
    split
    · next hlt => exact .inr (.inl ⟨hlist, hlt, rfl⟩)
    · next hge =>
      refine .inr (.inr ⟨?_, rfl⟩)
      have hle := (k.sem i).value.isLt
      rw [BitVec.lt_def, show rtSemValueMax.toNat = 65535 from rfl] at hge
      exact BitVec.eq_of_toNat_eq (by rw [show rtSemValueMax.toNat = 65535 from rfl]; omega)

/-- `rt_sem_release` keeps the state sound, whether it wakes a thread or counts. -/
theorem Sound.call_semRelease (h : Sound idle s) (hrest : s.rest s.kernel.currentThread = none) :
    Sound idle (s.call (.semRelease i)).1 := by
  have hns := not_scheduling hrest
  have hnone := Tasks.tail_none hrest
  rcases rtSemRelease_cases s.kernel i with ⟨t, l, hlist, heq⟩ | ⟨hlist, -, heq⟩ | ⟨-, heq⟩
  · have hstat := ((h.kernel.waits.mem_iff t i).mp (hlist ▸ List.mem_cons_self)).1
    have hwakes := h.kernel.timers.rtThreadResume hstat
    have hcall : (s.call (.semRelease i)).1 =
        s.pause (s.kernel.rtThreadResume t) (some (.schedule none)) := by
      simp only [Tasks.call, heq]
    rw [hcall]
    refine Sound.schedules ?_ (hwakes.1.ready h.idle) hwakes.2 fun _ => ?_
    · rw [hnone]
      exact h.kernel.rtThreadResume hstat
    · rw [hwakes.2]
      exact hwakes.1.ready (h.ready hns)
  · have hcall : (s.call (.semRelease i)).1 = s.pause { s.kernel with
        sem := Function.update s.kernel.sem i
          { s.kernel.sem i with value := (s.kernel.sem i).value + 1 } } none := by
      simp only [Tasks.call, heq]
    rw [hcall]
    refine Sound.returns ?_ h.idle
      (fun hlock => (h.foremost hlock hns).unseen (unseen_sem _ _)) h.locked
    rw [hnone]
    exact h.kernel.setValue hlist _
  · have hcall : (s.call (.semRelease i)).1 = s.pause s.kernel none := by
      simp only [Tasks.call, heq]
    rw [hcall]
    exact Sound.returns (by rw [hnone]; exact h.kernel) h.idle (fun hlock =>
      h.foremost hlock hns) h.locked

/-- A release from an interrupt keeps the state sound, in the middle of any
function. -/
theorem Sound.isrRelease (h : Sound idle s) : Sound idle (s.isrRelease i).1 := by
  rcases rtSemRelease_cases s.kernel i with ⟨t, l, hlist, heq⟩ | ⟨hlist, -, heq⟩ | ⟨-, heq⟩
  · have hstat := ((h.kernel.waits.mem_iff t i).mp (hlist ▸ List.mem_cons_self)).1
    have hwakes := h.kernel.timers.rtThreadResume hstat
    have hk := h.kernel.rtThreadResume hstat
    have hcall : (s.isrRelease i).1 = ⟨(s.kernel.rtThreadResume t).rtSchedule, s.rest⟩ := by
      simp only [Tasks.isrRelease, heq]
    rw [hcall]
    by_cases hlock : (s.kernel.rtThreadResume t).schedulerLockNest = 0
    · obtain ⟨c, hc, hf⟩ := hk.queues.schedule hlock (hwakes.1.ready h.idle)
      rw [hc]
      exact ⟨hk.of_eq rfl rfl rfl rfl rfl rfl, hwakes.1.ready h.idle,
        fun _ _ => ⟨hf.first, hf.highest⟩, fun hne => absurd hlock hne⟩
    · rw [rtSchedule, if_neg hlock]
      refine ⟨hk, hwakes.1.ready h.idle, fun hzero => absurd hzero hlock, fun hne => ?_⟩
      show ((s.kernel.rtThreadResume t).thread
        (s.kernel.rtThreadResume t).currentThread).stat = .ready
      rw [hwakes.2]
      exact hwakes.1.ready (h.locked (hwakes.1.schedulerLockNest ▸ hlock))
  · have hcall : (s.isrRelease i).1 = ⟨{ s.kernel with
        sem := Function.update s.kernel.sem i
          { s.kernel.sem i with value := (s.kernel.sem i).value + 1 } }, s.rest⟩ := by
      simp only [Tasks.isrRelease, heq]
    rw [hcall]
    exact ⟨h.kernel.setValue hlist _, h.idle,
      fun hlock hs => (h.foremost hlock hs).unseen (unseen_sem _ _), h.locked⟩
  · have hcall : (s.isrRelease i).1 = s := by simp only [Tasks.isrRelease, heq]
    rw [hcall]
    exact h

/-! ## Going on, and the tick -/

/-- The current thread goes on behind its call of the scheduler. -/
theorem Sound.behind {tail : Tail} (h : Sound idle s)
    (hrest : s.rest s.kernel.currentThread = some (.behind tail)) :
    ¬ s.Scheduling ∧ (s.kernel.thread s.kernel.currentThread).stat = .ready ∧
      Consistent (Function.update s.tail s.kernel.currentThread none) s.kernel := by
  have hns : ¬ s.Scheduling := by
    intro hs
    obtain ⟨tail', htail⟩ := hs
    rw [hrest] at htail
    cases htail
  refine ⟨hns, h.ready hns, h.kernel.setTail fun u hu => ?_⟩
  have hut : u ≠ s.kernel.currentThread := fun hut => by
    rw [hut, h.ready hns] at hu
    exact Stat.noConfusion hu
  rw [Function.update_of_ne hut]

/-- What a sleep does after it was woken is not seen by the scheduler. -/
theorem unseen_sleepEnd (k : Kernel) : Unseen k k.sleepEnd ∧ Keeps k k.sleepEnd := by
  unfold sleepEnd
  dsimp only
  split
  · exact ⟨unseen_setThread ⟨rfl, rfl, rfl, rfl⟩, rfl, rfl, rfl⟩
  · exact ⟨.refl k, rfl, rfl, rfl⟩

/-- The rest of a function keeps the state sound. -/
theorem Sound.goOn (h : Sound idle s) : Sound idle s.goOn.1 := by
  unfold Tasks.goOn
  dsimp only
  split
  · exact h
  · next tail hrest =>
    have htail : Function.update s.tail s.kernel.currentThread tail = s.tail := by
      have hself : s.tail s.kernel.currentThread = tail := by rw [Tasks.tail, hrest]; rfl
      rw [← hself]
      exact Function.update_eq_self _ _
    have hkernel : Consistent (s.pause s.kernel.rtSchedule (tail.map .behind)).tail
        s.kernel.rtSchedule := by
      have hbind : (tail.map Rest.behind).bind Rest.tail = tail := by cases tail <;> rfl
      rw [Tasks.tail_pause, hbind, htail]
      exact h.kernel.rtSchedule
    by_cases hlock : s.kernel.schedulerLockNest = 0
    · obtain ⟨c, hc, hf⟩ := h.kernel.queues.schedule hlock h.idle
      rw [hc] at hkernel ⊢
      exact ⟨hkernel, h.idle, fun _ _ => ⟨hf.first, hf.highest⟩, fun hne => absurd hlock hne⟩
    · rw [rtSchedule, if_neg hlock] at hkernel ⊢
      exact ⟨hkernel, h.idle, fun hzero => absurd hzero hlock, h.locked⟩
  · next hrest =>
    obtain ⟨hns, hready, hk⟩ := h.behind hrest
    obtain ⟨hunseen, hkeeps⟩ := unseen_sleepEnd s.kernel
    refine Sound.returns (hk.sleepEnd (by rw [hready]; decide))
      ((hunseen.thread idle).stat.trans h.idle)
      (fun hlock => ?_) fun _ => ?_
    · rw [hkeeps.currentThread]
      exact (h.foremost (hkeeps.schedulerLockNest ▸ hlock) hns).unseen hunseen
    · rw [hkeeps.currentThread]
      exact (hunseen.thread _).stat.trans hready
  · next hrest =>
    obtain ⟨hns, -, hk⟩ := h.behind hrest
    have hreturns := Sound.returns hk h.idle (fun hlock => h.foremost hlock hns) h.locked
    split <;> exact hreturns

/-- The tick interrupt keeps the state sound, in the middle of any function. -/
theorem Sound.tick (h : Sound idle s) : Sound idle ⟨s.kernel.rtTickIncrease, s.rest⟩ := by
  obtain ⟨hq, ht, hw, hticked⟩ := rtTickIncrease_spec h.kernel.queues h.kernel.timers h.kernel.waits
  have hother : ∀ u, (s.kernel.thread u).stat = .ready →
      (s.kernel.rtTickIncrease.thread u).stat = .ready := by
    intro u hu
    rw [hticked.others u fun hactive => ?_]
    · exact hu
    · rw [h.kernel.timers.suspended u hactive] at hu
      exact Stat.noConfusion hu
  refine ⟨⟨hq, ht, hw⟩, hother idle h.idle, fun hlock hs => ?_, fun hne => ?_⟩
  · rcases hticked.current with ⟨hunseen, hcurrent⟩ | hforemost | hlocked
    · have hns : ¬ s.Scheduling := fun hsched => hs (by rwa [Tasks.Scheduling, hcurrent])
      show Foremost s.kernel.rtTickIncrease s.kernel.rtTickIncrease.currentThread
      rw [hcurrent]
      exact (h.foremost (hticked.schedulerLockNest ▸ hlock) hns).unseen hunseen
    · exact hforemost.2
    · exact absurd hlock hlocked.1
  · have hcurrent : s.kernel.rtTickIncrease.currentThread = s.kernel.currentThread := by
      rcases hticked.current with h | h | h
      · exact h.2
      · exact absurd h.1 hne
      · exact h.2
    show (s.kernel.rtTickIncrease.thread s.kernel.rtTickIncrease.currentThread).stat = .ready
    rw [hcurrent]
    exact hother _ (h.locked (hticked.schedulerLockNest ▸ hne))

/-- **Every action that is allowed keeps the state sound.** -/
theorem Sound.step {a : Act} (h : Sound idle s) (ha : a.Allowed idle s) :
    Sound idle (s.step a).1 := by
  cases a with
  | tick => exact h.tick
  | isrRelease i => exact h.isrRelease
  | goOn => exact h.goOn
  | call c =>
    obtain ⟨hrest, hc⟩ := ha
    cases c with
    | startup t => exact h.call_startup hrest hc
    | exit => exact h.call_exit hrest hc.1 hc.2
    | yield => exact h.call_yield hrest
    | sleep tick => exact h.call_sleep hrest hc.1 hc.2.1 hc.2.2
    | enterCritical => exact h.call_enterCritical hrest
    | exitCritical => exact h.call_exitCritical hrest
    | semTake i time => exact h.call_semTake hrest hc
    | semRelease i => exact h.call_semRelease hrest

/-! ## Start -/

/-- What `rtthread_startup` is given: threads and semaphores that have been
initialized, and the threads to start, the idle thread among them. -/
structure Startup (idle : Nat) (thread : Nat → Thread) (sem : Nat → Semaphore)
    (threads : List Nat) :
    Prop where
  thread : ∀ t, ∃ priority tick, priority < rtThreadPriorityMax ∧
    thread t = rtThreadInit priority tick
  sem : ∀ i, (sem i).suspendThread = []
  nodup : threads.Nodup
  idle : idle ∈ threads

variable {thread : Nat → Thread} {sem : Nat → Semaphore} {threads : List Nat}

theorem Startup.init (h : Startup idle thread sem threads) (t : Nat) : (thread t).stat = .init := by
  obtain ⟨priority, tick, -, heq⟩ := h.thread t
  rw [heq]
  rfl

/-- After `rt_system_scheduler_init` no thread is in any list. -/
theorem consistent_init (h : Startup idle thread sem threads) :
    Consistent (fun _ => none) (rtSystemSchedulerInit thread sem) := by
  have hoff : ∀ t, (thread t).threadTimer.activated ≠ true := by
    intro t
    obtain ⟨priority, tick, -, heq⟩ := h.thread t
    rw [heq]
    exact Bool.false_ne_true
  have hready : ∀ t, (thread t).stat ≠ .ready := fun t => by rw [h.init]; decide
  have hsuspend : ∀ t, (thread t).stat ≠ .suspend := fun t => by rw [h.init]; decide
  refine ⟨
    ⟨fun t p => ?_, fun _ => .nil, fun t => ?_, fun t => ?_, fun t hinit => ?_, fun p _ => ?_⟩,
    ⟨fun t => ?_, .nil, fun t hactive => ?_, fun t hactive => ?_, .nil⟩,
    ⟨fun t i => ?_, fun i => ?_, fun i _ => h.sem i, fun t hs => ?_, fun t i hs => ?_,
      fun i _ => ?_⟩⟩
  · exact iff_of_false List.not_mem_nil fun hr => hready t hr.1
  · obtain ⟨priority, tick, hlt, heq⟩ := h.thread t
    show (thread t).initPriority < _
    rw [heq]
    exact hlt
  · obtain ⟨priority, tick, hlt, heq⟩ := h.thread t
    show (thread t).currentPriority < _
    rw [heq]
    exact hlt
  · exact absurd (h.init t) hinit
  · show (0#32).getLsbD p = true ↔ _
    rw [BitVec.getLsbD_zero]
    exact iff_of_false Bool.false_ne_true fun hne => hne rfl
  · exact iff_of_false List.not_mem_nil (hoff t)
  · exact absurd hactive (hoff t)
  · exact absurd hactive (hoff t)
  · show t ∈ (sem i).suspendThread ↔ _
    rw [h.sem]
    exact iff_of_false List.not_mem_nil fun hs => hsuspend t hs.1
  · show (sem i).suspendThread.Nodup
    rw [h.sem]
    exact .nil
  · exact absurd hs (hsuspend t)
  · exact absurd hs (hsuspend t)
  · show (sem i).suspendThread.Pairwise _
    rw [h.sem]
    exact .nil

/-- Starting threads that were never started, one after the other, keeps the
lists right. -/
theorem consistent_startup {tail : Nat → Option Tail} : ∀ (threads : List Nat) (k : Kernel),
    Consistent tail k → threads.Nodup → (∀ t ∈ threads, (k.thread t).stat = .init) →
    Consistent tail (threads.foldl rtThreadStartup k) ∧
      (threads.foldl rtThreadStartup k).schedulerLockNest = k.schedulerLockNest ∧
      (∀ t, t ∈ threads ∨ (k.thread t).stat = .ready →
        ((threads.foldl rtThreadStartup k).thread t).stat = .ready) ∧
      ∀ i, (threads.foldl rtThreadStartup k).sem i = k.sem i := by
  intro threads
  induction threads with
  | nil => exact fun k hk _ _ =>
      ⟨hk, rfl, fun t ht => ht.resolve_left List.not_mem_nil, fun _ => rfl⟩
  | cons u threads ih =>
    intro k hk hnodup hinit
    obtain ⟨hu, hnodup⟩ := List.nodup_cons.mp hnodup
    obtain ⟨hk1, hkeeps, hthread, hsem⟩ := rtThreadStartup_spec hk (hinit u List.mem_cons_self)
    have hother : ∀ t, t ≠ u → (k.rtThreadStartup u).thread t = k.thread t := fun t ht => by
      rw [hthread, Function.update_of_ne ht]
    obtain ⟨hk2, hlock, hready, hsem2⟩ := ih (k.rtThreadStartup u) hk1 hnodup fun t ht => by
      rw [hother t fun heq => hu (heq ▸ ht)]
      exact hinit t (List.mem_cons_of_mem _ ht)
    refine ⟨hk2, hlock.trans hkeeps.schedulerLockNest, fun t ht => ?_,
      fun i => (hsem2 i).trans (hsem i)⟩
    by_cases htu : t = u
    · refine hready t (.inr ?_)
      rw [htu, hthread, Function.update_self]
      rfl
    · refine hready t (ht.imp (fun hmem => (List.mem_cons.mp hmem).resolve_left htu) fun hr => ?_)
      rwa [hother t htu]

/-- After the startup of the system the state is sound and no semaphore has
changed. -/
theorem sound_startup (h : Startup idle thread sem threads) :
    Sound idle (rtthreadStartup thread sem threads) ∧
      ∀ i, (rtthreadStartup thread sem threads).kernel.sem i = sem i := by
  obtain ⟨hk, hlock, hready, hsem⟩ := consistent_startup threads (rtSystemSchedulerInit thread sem)
    (consistent_init h) h.nodup fun t _ => h.init t
  obtain ⟨k, hkdef⟩ : ∃ k, k = threads.foldl rtThreadStartup (rtSystemSchedulerInit thread sem) :=
    ⟨_, rfl⟩
  rw [← hkdef] at hk hlock hready hsem
  have hzero : k.schedulerLockNest = 0 := hlock
  have hidle := hready idle (.inl h.idle)
  obtain ⟨c, hc, hf⟩ := hk.queues.schedule hzero hidle
  have hstart : rtSystemSchedulerStart k = k.rtSchedule := by
    rw [rtSystemSchedulerStart, rtSchedule, if_pos hzero]
    split
    · next hnone => rw [hnone]; rfl
    · next hsome => rw [hsome]; rfl
  have heq : rtthreadStartup thread sem threads =
      ⟨{ k with currentThread := c }, fun _ => none⟩ := by
    rw [rtthreadStartup, ← hkdef, hstart, hc]
  rw [heq]
  exact ⟨⟨hk.of_eq rfl rfl rfl rfl rfl rfl, hidle, fun _ _ => ⟨hf.first, hf.highest⟩,
    fun hne => absurd hzero hne⟩, hsem⟩

/-- **Every run keeps the state sound**, by induction over its actions. -/
theorem Sound.runs {s s' : Tasks} {as : List Act} {es : List Event} (h : Sound idle s)
    (hr : Runs idle s as es s') : Sound idle s' := by
  induction hr with
  | start => exact h
  | step _ ha ih => exact ih.step ha

end Ch583Kbd.Rtt
