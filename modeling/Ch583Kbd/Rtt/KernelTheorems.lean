/-
Ch583Kbd.Rtt.KernelTheorems — what can be relied on in every run.

  highest_runs    the thread that runs is the first one of the highest
                  priority that is ready
  nest_runs       the count of `rt_enter_critical` stays within its type
  sleeps_exactly  a thread sleeps for exactly the ticks it asked for
  waits_at_most   a thread that waits for a semaphore gets it, or a time-out
                  at the tick it asked for
-/
import Ch583Kbd.Rtt.KernelInvariant

namespace Ch583Kbd.Rtt

open Kernel

variable {s s' : Tasks} {k : Kernel} {a : Act} {idle t u i : Nat} {thread : Nat → Thread}
  {sem : Nat → Semaphore} {threads : List Nat} {as : List Act} {es : List Event}

/-! ## What a call does to the kernel -/

/-- What a call does to the kernel, up to its scheduling. -/
def Call.effect (k : Kernel) : Call → Kernel
  | .startup t => k.rtThreadStartup t
  | .exit => k.rtThreadExit
  | .yield => k.rtThreadYield.1
  | .sleep tick => k.rtThreadSleep tick
  | .enterCritical => k.rtEnterCritical
  | .exitCritical => k.rtExitCritical.1
  | .semTake i time => (k.rtSemTake i time).1
  | .semRelease i => (k.rtSemRelease i).1

/-- A call changes the kernel as `Call.effect` says, and then pauses the thread. -/
theorem Tasks.call_eq (s : Tasks) (c : Call) :
    ∃ rest, (s.call c).1 = s.pause (c.effect s.kernel) rest := by
  cases c with
  | yield =>
    rcases h : s.kernel.rtThreadYield with ⟨k, goes⟩
    cases goes <;> exact ⟨_, by simp only [Tasks.call, Call.effect, h]; rfl⟩
  | exitCritical =>
    rcases h : s.kernel.rtExitCritical with ⟨k, goes⟩
    cases goes <;> exact ⟨_, by simp only [Tasks.call, Call.effect, h]; rfl⟩
  | semTake i time =>
    rcases h : s.kernel.rtSemTake i time with ⟨k, taken⟩
    rcases taken with e | _
    · cases e <;> exact ⟨_, by simp only [Tasks.call, Call.effect, h]; rfl⟩
    · exact ⟨_, by simp only [Tasks.call, Call.effect, h]; rfl⟩
  | semRelease i =>
    rcases rtSemRelease_cases s.kernel i with ⟨t, l, -, h⟩ | ⟨-, -, h⟩ | ⟨-, h⟩ <;>
      exact ⟨_, by simp only [Tasks.call, Call.effect, h]; rfl⟩
  | _ => exact ⟨_, rfl⟩

/-- A release leaves the scheduler alone up to its call of it. -/
theorem rtSemRelease_keeps (hk : Consistent s.tail k) (i : Nat) : Keeps k (k.rtSemRelease i).1 := by
  rcases rtSemRelease_cases k i with ⟨t, l, hlist, heq⟩ | ⟨-, -, heq⟩ | ⟨-, heq⟩
  · have hstat := ((hk.waits.mem_iff t i).mp (hlist ▸ List.mem_cons_self)).1
    obtain ⟨hwakes, hcurrent⟩ := hk.timers.rtThreadResume hstat
    rw [heq]
    exact ⟨hwakes.tick, hwakes.schedulerLockNest, hcurrent⟩
  · rw [heq]
    exact ⟨rfl, rfl, rfl⟩
  · rw [heq]
    exact ⟨rfl, rfl, rfl⟩

/-- A release from an interrupt is `rt_sem_release`, followed by a scheduling or
not. -/
theorem isrRelease_eq (s : Tasks) (i : Nat) :
    (s.isrRelease i).1 = ⟨(s.kernel.rtSemRelease i).1, s.rest⟩ ∨
      (s.isrRelease i).1 = ⟨(s.kernel.rtSemRelease i).1.rtSchedule, s.rest⟩ := by
  rcases rtSemRelease_cases s.kernel i with ⟨t, l, -, h⟩ | ⟨-, -, h⟩ | ⟨-, h⟩
  · exact .inr (by simp only [Tasks.isrRelease, h])
  · exact .inl (by simp only [Tasks.isrRelease, h])
  · exact .inl (by simp only [Tasks.isrRelease, h])

/-! ## A small system -/

/-- The idle thread, and two threads above it. -/
def smallThread (t : Nat) : Thread :=
  rtThreadInit (if t = 1 then 2 else if t = 2 then 3 else 7) 5

def smallSystem : Tasks := rtthreadStartup smallThread (fun _ => ⟨0, [], .prio⟩) [2, 1, 0]

theorem startup_small : Startup 0 smallThread (fun _ => ⟨0, [], .prio⟩) [2, 1, 0] where
  thread t := by
    refine ⟨_, 5, ?_, rfl⟩
    split
    · decide
    · split <;> decide
  sem _ := rfl
  nodup := by decide
  idle := by decide

/-- One thread waits, and the other one releases. -/
def pickedSystem : Tasks :=
  smallSystem.after [.call (.semTake 0 10), .goOn, .call (.semRelease 0), .goOn]

/-- A thread waits with a time, and another releases the semaphore, which picks
the first one. -/
theorem runs_picked : Runs 0 smallSystem
    [.call (.semTake 0 10), .goOn, .call (.semRelease 0), .goOn] [.released 0] pickedSystem :=
  (((Runs.start.step (a := .call (.semTake 0 10)) (by decide)).step (a := .goOn) (by decide)).step
    (a := .call (.semRelease 0)) (by decide)).step (a := .goOn) (by decide)

/-! ## The highest priority -/

/-- Under the lock `rt_schedule` does nothing. -/
theorem rtSchedule_locked (hlock : k.schedulerLockNest ≠ 0) : k.rtSchedule = k := by
  rw [rtSchedule, if_neg hlock]

/-- No other thread runs while the scheduler is locked. -/
theorem locked_step (h : Sound idle s) (ha : a.Allowed idle s)
    (hlock : s.kernel.schedulerLockNest ≠ 0) :
    (s.step a).1.kernel.currentThread = s.kernel.currentThread := by
  cases a with
  | call c =>
    obtain ⟨hrest, hc⟩ := ha
    obtain ⟨rest, heq⟩ := s.call_eq c
    show (s.call c).1.kernel.currentThread = _
    rw [heq]
    show (c.effect s.kernel).currentThread = _
    cases c with
    | startup t => exact (rtThreadStartup_spec h.kernel hc).2.1.currentThread
    | exit => exact absurd hc.1 hlock
    | yield =>
      obtain ⟨-, -, -, hkeeps, -, -⟩ := rtThreadYield_same h.kernel.waits
      exact hkeeps.currentThread
    | sleep tick => exact absurd hc.1 hlock
    | enterCritical => rfl
    | exitCritical =>
      show s.kernel.rtExitCritical.1.currentThread = _
      unfold rtExitCritical
      split <;> rfl
    | semTake i time =>
      show (s.kernel.rtSemTake i time).1.currentThread = _
      by_cases hvalue : (s.kernel.sem i).value = 0
      · -- a take that would wait is not allowed under the lock
        have hzero : time = 0 := by_contra fun hne => hlock (hc.of_waits hvalue hne).1
        rw [rtSemTake, if_neg (not_not.mpr hvalue), if_pos hzero]
      · rw [rtSemTake, if_pos hvalue]
    | semRelease i => exact (rtSemRelease_keeps h.kernel i).currentThread
  | goOn =>
    show s.goOn.1.kernel.currentThread = _
    unfold Tasks.goOn
    dsimp only
    split
    · rfl
    · rw [rtSchedule_locked hlock]
      rfl
    · exact (unseen_sleepEnd s.kernel).2.currentThread
    · split <;> rfl
  | tick =>
    obtain ⟨-, -, -, hticked⟩ := rtTickIncrease_spec h.kernel.queues h.kernel.timers h.kernel.waits
    rcases hticked.current with h | h | h
    · exact h.2
    · exact absurd (hticked.schedulerLockNest.symm.trans h.1) hlock
    · exact h.2
  | isrRelease i =>
    have hkeeps := rtSemRelease_keeps h.kernel i
    show (s.isrRelease i).1.kernel.currentThread = _
    rcases isrRelease_eq s i with heq | heq
    · rw [heq]
      exact hkeeps.currentThread
    · rw [heq, rtSchedule_locked (hkeeps.schedulerLockNest ▸ hlock)]
      exact hkeeps.currentThread

/-- **The highest priority runs.** Whatever the threads and the interrupts do:
while the scheduler is not locked and the current thread is not just about to
call it, the current thread is ready, it is the first one in the list of its
priority, and no thread of a higher priority is ready. A list has just the
threads that are ready, once each, and the bit of a priority says whether its
list has any. While the scheduler is locked the current thread stays. -/
theorem highest_runs (h : Startup idle thread sem threads)
    (hr : Runs idle (rtthreadStartup thread sem threads) as es s) :
    (s.kernel.schedulerLockNest = 0 → ¬ s.Scheduling →
      (s.kernel.thread s.kernel.currentThread).stat = .ready ∧
      (s.kernel.priorityTable (s.kernel.thread s.kernel.currentThread).currentPriority).head? =
        some s.kernel.currentThread ∧
      ∀ u, (s.kernel.thread u).stat = .ready →
        (s.kernel.thread s.kernel.currentThread).currentPriority ≤
          (s.kernel.thread u).currentPriority) ∧
    (∀ t p, t ∈ s.kernel.priorityTable p ↔
      (s.kernel.thread t).stat = .ready ∧ (s.kernel.thread t).currentPriority = p) ∧
    (∀ p, (s.kernel.priorityTable p).Nodup) ∧
    (∀ p, p < 32 → (s.kernel.readyPriorityGroup.getLsbD p = true ↔ s.kernel.priorityTable p ≠ [])) ∧
    ∀ a, a.Allowed idle s → s.kernel.schedulerLockNest ≠ 0 →
      (s.step a).1.kernel.currentThread = s.kernel.currentThread := by
  have hsound := (sound_startup h).1.runs hr
  refine ⟨fun hlock hs => ?_, hsound.kernel.queues.mem_iff, hsound.kernel.queues.nodup,
    hsound.kernel.queues.group, fun a ha hlock => locked_step hsound ha hlock⟩
  have hf := hsound.foremost hlock hs
  exact ⟨hsound.ready hs, hf.first, hf.highest⟩

/-- The thread that was picked runs, and not the one that released. -/
theorem highest_runs_small : (pickedSystem.kernel.thread 2).stat = .ready ∧
    (pickedSystem.kernel.thread pickedSystem.kernel.currentThread).stat = .ready ∧
    (pickedSystem.kernel.thread pickedSystem.kernel.currentThread).currentPriority ≤
      (pickedSystem.kernel.thread 2).currentPriority := by
  have hrest : pickedSystem.rest pickedSystem.kernel.currentThread =
      some (.behind (.semTake 0)) := by decide
  have hs : ¬ pickedSystem.Scheduling := by
    intro hs
    obtain ⟨tail, htail⟩ := hs
    rw [hrest] at htail
    cases htail
  have hready : (pickedSystem.kernel.thread 2).stat = .ready := by decide
  obtain ⟨hcurrent, -, hhighest⟩ := (highest_runs startup_small runs_picked).1 (by decide) hs
  exact ⟨hready, hcurrent, hhighest 2 hready⟩

/-! ## How often the scheduler is locked -/

theorem nest_rtSchedule (k : Kernel) : k.rtSchedule.schedulerLockNest = k.schedulerLockNest := by
  obtain ⟨c, hc⟩ := rtSchedule_eq k
  rw [hc]

/-- A call keeps the count of `rt_enter_critical` within its type. -/
theorem effect_nest (h : Sound idle s) {c : Call} (hrest : s.rest s.kernel.currentThread = none)
    (hc : c.Allowed idle s.kernel) (hle : s.kernel.schedulerLockNest ≤ lockNestMax) :
    (c.effect s.kernel).schedulerLockNest ≤ lockNestMax := by
  have hready := h.ready (not_scheduling hrest)
  have hkeeps : ∀ {k'}, Keeps s.kernel k' → k'.schedulerLockNest ≤ lockNestMax :=
    fun hk => by rwa [hk.schedulerLockNest]
  cases c with
  | startup t => exact hkeeps (rtThreadStartup_spec h.kernel hc).2.1
  | exit =>
    obtain ⟨-, -, -, hzero, -⟩ :=
      rtThreadExit_spec h.kernel hready hc.1 (Ne.symm hc.2) h.idle
    show s.kernel.rtThreadExit.schedulerLockNest ≤ _
    rw [hzero]
    exact Nat.zero_le _
  | yield =>
    obtain ⟨-, -, -, hk, -⟩ := rtThreadYield_same h.kernel.waits
    exact hkeeps hk
  | sleep tick => exact hkeeps (h.kernel.timers.rtThreadSleep hready hc.2.2).2.1
  | enterCritical => exact Nat.succ_le_of_lt hc
  | exitCritical =>
    show s.kernel.rtExitCritical.1.schedulerLockNest ≤ _
    unfold rtExitCritical
    split
    · exact Nat.zero_le _
    · exact Nat.le_trans (Nat.sub_le _ _) hle
  | semTake i time =>
    show (s.kernel.rtSemTake i time).1.schedulerLockNest ≤ _
    by_cases hvalue : (s.kernel.sem i).value = 0
    · by_cases hzero : time = 0
      · rw [rtSemTake, if_neg (not_not.mpr hvalue), if_pos hzero]
        exact hle
      · obtain ⟨-, -, hlt⟩ := hc.of_waits hvalue hzero
        exact hkeeps (rtSemTake_waits h.kernel.waits h.kernel.timers hready hvalue hzero hlt).2.2.1
    · rw [rtSemTake, if_pos hvalue]
      exact hle
  | semRelease i => exact hkeeps (rtSemRelease_keeps h.kernel i)

/-- So does every action. -/
theorem nest_step (h : Sound idle s) (ha : a.Allowed idle s)
    (hle : s.kernel.schedulerLockNest ≤ lockNestMax) :
    (s.step a).1.kernel.schedulerLockNest ≤ lockNestMax := by
  have hsame : ∀ {k' : Kernel}, k'.schedulerLockNest = s.kernel.schedulerLockNest →
      k'.schedulerLockNest ≤ lockNestMax := fun heq => by rwa [heq]
  cases a with
  | call c =>
    obtain ⟨hrest, hc⟩ := ha
    obtain ⟨rest, heq⟩ := s.call_eq c
    show (s.call c).1.kernel.schedulerLockNest ≤ _
    rw [heq]
    exact effect_nest h hrest hc hle
  | goOn =>
    show s.goOn.1.kernel.schedulerLockNest ≤ _
    unfold Tasks.goOn
    dsimp only
    split
    · exact hle
    · exact hsame (nest_rtSchedule s.kernel)
    · exact hsame (unseen_sleepEnd s.kernel).2.schedulerLockNest
    · split <;> exact hle
  | tick =>
    obtain ⟨-, -, -, hticked⟩ := rtTickIncrease_spec h.kernel.queues h.kernel.timers h.kernel.waits
    exact hsame hticked.schedulerLockNest
  | isrRelease i =>
    have hkeeps := (rtSemRelease_keeps h.kernel i).schedulerLockNest
    show (s.isrRelease i).1.kernel.schedulerLockNest ≤ _
    rcases isrRelease_eq s i with heq | heq
    · rw [heq]
      exact hsame hkeeps
    · rw [heq]
      exact hsame ((nest_rtSchedule _).trans hkeeps)

/-- **The lock's count fits in its 16 bits**, in every state of every run. -/
theorem nest_runs (h : Startup idle thread sem threads)
    (hr : Runs idle (rtthreadStartup thread sem threads) as es s) :
    s.kernel.schedulerLockNest ≤ lockNestMax := by
  induction hr with
  | start =>
    obtain ⟨-, hlock, -⟩ := consistent_startup threads (rtSystemSchedulerInit thread sem)
      (consistent_init h) h.nodup fun t _ => h.init t
    have hzero : (rtthreadStartup thread sem threads).kernel.schedulerLockNest = 0 := hlock
    rw [hzero]
    exact Nat.zero_le _
  | step hr ha ih => exact nest_step ((sound_startup h).1.runs hr) ha ih

/-! ## Blocked threads -/

/-- A release, by a thread or in an interrupt. -/
def Act.Releases (a : Act) (i : Nat) : Prop := a = .call (.semRelease i) ∨ a = .isrRelease i

/-- A release has picked a thread that waited for its semaphore. -/
structure Picked (s : Tasks) (a : Act) (s' : Tasks) (t : Nat) : Prop where
  release : ∃ i, s.tail t = some (.semTake i) ∧ a.Releases i
  stat : (s'.kernel.thread t).stat = .ready
  error : (s'.kernel.thread t).error = .ok

/-- A release leaves a thread as it is or wakes one that waits for this
semaphore. -/
theorem rtSemRelease_suspended (hk : Consistent s.tail s.kernel) (i t : Nat) :
    (s.kernel.rtSemRelease i).1.thread t = s.kernel.thread t ∨
      s.tail t = some (.semTake i) ∧ ((s.kernel.rtSemRelease i).1.thread t).stat = .ready ∧
        ((s.kernel.rtSemRelease i).1.thread t).error = .ok := by
  rcases rtSemRelease_cases s.kernel i with ⟨u, l, hlist, heq⟩ | ⟨-, -, heq⟩ | ⟨-, heq⟩
  · obtain ⟨hu, htail⟩ := (hk.waits.mem_iff u i).mp (hlist ▸ List.mem_cons_self)
    obtain ⟨hwakes, -⟩ := hk.timers.rtThreadResume hu
    rw [heq, hwakes.thread]
    by_cases hut : t = u
    · rw [hut, Function.update_self]
      exact .inr ⟨htail, rfl, hk.waits.error u i hu htail⟩
    · rw [Function.update_of_ne hut]
      exact .inl rfl
  · rw [heq]
    exact .inl rfl
  · rw [heq]
    exact .inl rfl

/-- `rt_schedule` changes no thread, no semaphore and not the tick. -/
theorem thread_rtSchedule (k : Kernel) : k.rtSchedule.thread = k.thread ∧
    k.rtSchedule.tick = k.tick ∧
    k.rtSchedule.sem = k.sem := by
  obtain ⟨c, hc⟩ := rtSchedule_eq k
  rw [hc]
  exact ⟨rfl, rfl, rfl⟩

/-- What a call does to a thread that is not the current one: mostly nothing. -/
theorem effect_others (h : Sound idle s) {c : Call} (hrest : s.rest s.kernel.currentThread = none)
    (hc : c.Allowed idle s.kernel) (hne : t ≠ s.kernel.currentThread) :
    (c.effect s.kernel).tick = s.kernel.tick ∧ ((c.effect s.kernel).thread t = s.kernel.thread t ∨
      (s.kernel.thread t).stat = .init ∧
        (c.effect s.kernel).thread t = started (s.kernel.thread t) ∨
      ∃ i, c = .semRelease i ∧ s.tail t = some (.semTake i) ∧
        ((c.effect s.kernel).thread t).stat = .ready ∧ ((c.effect s.kernel).thread t).error =
          .ok) := by
  have hready := h.ready (not_scheduling hrest)
  cases c with
  | startup u =>
    have hinit : (s.kernel.thread u).stat = .init := hc
    obtain ⟨-, hkeeps, hthread, -⟩ := rtThreadStartup_spec h.kernel hinit
    refine ⟨hkeeps.tick, ?_⟩
    show (s.kernel.rtThreadStartup u).thread t = _ ∨
      _ ∧ (s.kernel.rtThreadStartup u).thread t = _ ∨ _
    rw [hthread]
    by_cases hut : t = u
    · rw [hut, Function.update_self]
      exact .inr (.inl ⟨hinit, rfl⟩)
    · rw [Function.update_of_ne hut]
      exact .inl rfl
  | exit =>
    obtain ⟨-, -, htick, -, hthread, -⟩ :=
      rtThreadExit_spec h.kernel hready hc.1 (Ne.symm hc.2) h.idle
    refine ⟨htick, .inl ?_⟩
    show s.kernel.rtThreadExit.thread t = _
    rw [hthread, Function.update_of_ne hne]
  | yield =>
    obtain ⟨hthread, -, -, hkeeps, -, -⟩ := rtThreadYield_same h.kernel.waits
    exact ⟨hkeeps.tick, .inl (congrFun hthread t)⟩
  | sleep tick =>
    obtain ⟨-, hkeeps, hthread, -⟩ := h.kernel.timers.rtThreadSleep hready hc.2.2
    refine ⟨hkeeps.tick, .inl ?_⟩
    show (s.kernel.rtThreadSleep tick).thread t = _
    rw [hthread, Function.update_of_ne hne]
  | enterCritical => exact ⟨rfl, .inl rfl⟩
  | exitCritical =>
    show s.kernel.rtExitCritical.1.tick = _ ∧ (s.kernel.rtExitCritical.1.thread t = _ ∨ _)
    unfold rtExitCritical
    split <;> exact ⟨rfl, .inl rfl⟩
  | semTake i time =>
    show (s.kernel.rtSemTake i time).1.tick = _ ∧ ((s.kernel.rtSemTake i time).1.thread t = _ ∨ _)
    by_cases hvalue : (s.kernel.sem i).value = 0
    · by_cases hzero : time = 0
      · rw [rtSemTake, if_neg (not_not.mpr hvalue), if_pos hzero]
        exact ⟨rfl, .inl rfl⟩
      · obtain ⟨-, -, hlt⟩ := hc.of_waits hvalue hzero
        obtain ⟨-, -, hkeeps, -, hthread, -⟩ := rtSemTake_waits (i := i) h.kernel.waits
          h.kernel.timers hready hvalue hzero hlt
        rw [hthread, Function.update_of_ne hne]
        exact ⟨hkeeps.tick, .inl rfl⟩
    · rw [rtSemTake, if_pos hvalue]
      exact ⟨rfl, .inl rfl⟩
  | semRelease i =>
    refine ⟨(rtSemRelease_keeps h.kernel i).tick, ?_⟩
    exact (rtSemRelease_suspended h.kernel i t).imp_right fun hp => .inr ⟨i, rfl, hp⟩

/-- An action that is no tick leaves a suspended thread alone, but for a
release that picks it. -/
theorem step_suspended (h : Sound idle s) (ha : a.Allowed idle s) (htick : a ≠ .tick)
    (hstat : (s.kernel.thread t).stat = .suspend) :
    (s.step a).1.kernel.tick = s.kernel.tick ∧ (s.step a).1.tail t = s.tail t ∧
      ((s.step a).1.kernel.thread t = s.kernel.thread t ∨ Picked s a (s.step a).1 t) := by
  cases a with
  | call c =>
    obtain ⟨hrest, hc⟩ := ha
    obtain ⟨rest, heq⟩ := s.call_eq c
    -- the thread that calls is ready, so it is not this one
    have hne : t ≠ s.kernel.currentThread := fun hcur => by
      rw [hcur, h.ready (not_scheduling hrest)] at hstat
      exact Stat.noConfusion hstat
    obtain ⟨hk, hthread⟩ := effect_others h hrest hc hne
    show (s.call c).1.kernel.tick = _ ∧ (s.call c).1.tail t = _ ∧
      ((s.call c).1.kernel.thread t = _ ∨ Picked s (.call c) (s.call c).1 t)
    rw [heq, Tasks.tail_pause, Function.update_of_ne hne]
    refine ⟨hk, rfl, hthread.imp_right fun hthread => ?_⟩
    rcases hthread with ⟨hinit, -⟩ | ⟨i, rfl, htail, hready, herror⟩
    · rw [hinit] at hstat
      exact Stat.noConfusion hstat
    · exact ⟨⟨i, htail, .inl rfl⟩, hready, herror⟩
  | goOn =>
    show s.goOn.1.kernel.tick = _ ∧ s.goOn.1.tail t = _ ∧ (s.goOn.1.kernel.thread t = _ ∨ _)
    have hbehind : ∀ {tail}, s.rest s.kernel.currentThread = some (.behind tail) →
        t ≠ s.kernel.currentThread := fun hrest hcur => by
      rw [hcur, (h.behind hrest).2.1] at hstat
      exact Stat.noConfusion hstat
    unfold Tasks.goOn
    dsimp only
    split
    · exact ⟨rfl, rfl, .inl rfl⟩
    · next tail hrest =>
      obtain ⟨hthread, htick, -⟩ := thread_rtSchedule s.kernel
      refine ⟨htick, ?_, .inl (congrFun hthread t)⟩
      rw [Tasks.tail_pause]
      by_cases hcur : t = s.kernel.currentThread
      · rw [hcur, Function.update_self, Tasks.tail, hrest]
        cases tail <;> rfl
      · rw [Function.update_of_ne hcur]
    · next hrest =>
      have hne := hbehind hrest
      refine ⟨?_, ?_, .inl ?_⟩
      · exact (unseen_sleepEnd s.kernel).2.tick
      · rw [Tasks.tail_pause, Function.update_of_ne hne]
      · show s.kernel.sleepEnd.thread t = _
        unfold sleepEnd
        dsimp only
        split
        · rw [thread_setThread, Function.update_of_ne hne]
        · rfl
    · next hrest =>
      have hne := hbehind hrest
      split
      · exact ⟨rfl, by rw [Tasks.tail_pause, Function.update_of_ne hne], .inl rfl⟩
      · exact ⟨rfl, by rw [Tasks.tail_pause, Function.update_of_ne hne], .inl rfl⟩
  | tick => exact absurd rfl htick
  | isrRelease i =>
    -- the interrupt ends with `rt_schedule` or without it
    have hkeeps := rtSemRelease_keeps h.kernel i
    have hthread := rtSemRelease_suspended h.kernel i t
    show (s.isrRelease i).1.kernel.tick = _ ∧ (s.isrRelease i).1.tail t = _ ∧
      ((s.isrRelease i).1.kernel.thread t = _ ∨ Picked s (.isrRelease i) (s.isrRelease i).1 t)
    rcases isrRelease_eq s i with heq | heq
    · rw [heq]
      exact ⟨hkeeps.tick, rfl, hthread.imp_right fun hp => ⟨⟨i, hp.1, .inr rfl⟩, hp.2.1, hp.2.2⟩⟩
    · obtain ⟨hsame, htick, -⟩ := thread_rtSchedule (s.kernel.rtSemRelease i).1
      rw [heq]
      refine ⟨htick.trans hkeeps.tick, rfl, ?_⟩
      rcases hthread with hthread | hp
      · exact .inl ((congrFun hsame t).trans hthread)
      · refine .inr ⟨⟨i, hp.1, .inr rfl⟩, ?_, ?_⟩
        · exact (congrArg Thread.stat (congrFun hsame t)).trans hp.2.1
        · exact (congrArg Thread.error (congrFun hsame t)).trans hp.2.2

/-- A thread waits with its timer running, and this many ticks left. -/
structure Blocked (s : Tasks) (t : Nat) (tail : Tail) (n : Nat) : Prop where
  stat : (s.kernel.thread t).stat = .suspend
  activated : (s.kernel.thread t).threadTimer.activated = true
  left : s.kernel.left s.kernel.tick t = n
  tail : s.tail t = some tail

/-- A tick before the one that a thread waits for takes one from what is
left. -/
theorem Blocked.tick {tail : Tail} {n : Nat} (h : Sound idle s) (hb : Blocked s t tail n)
    (hn : 1 < n) : Blocked (s.step .tick).1 t tail (n - 1) := by
  obtain ⟨-, -, -, hticked⟩ := rtTickIncrease_spec h.kernel.queues h.kernel.timers h.kernel.waits
  have hothers := hticked.others t fun _ => by rw [hb.left]; exact hn
  refine ⟨?_, ?_, ?_, hb.tail⟩
  · show (s.kernel.rtTickIncrease.thread t).stat = _
    rw [hothers]
    exact hb.stat
  · show (s.kernel.rtTickIncrease.thread t).threadTimer.activated = _
    rw [hothers]
    exact hb.activated
  · have hleft := hb.left
    have hprev : s.kernel.tick + 1 - 1 = s.kernel.tick := BitVec.add_sub_cancel _ _
    show s.kernel.rtTickIncrease.left s.kernel.rtTickIncrease.tick t = _
    rw [Kernel.left, hothers, hticked.tick]
    have hsucc := left_succ (k := s.kernel) (t := t) (s.kernel.tick + 1)
      (by rw [hprev, hleft]; exact Nat.zero_lt_of_lt hn)
    rw [hprev, hleft] at hsucc
    exact hsucc

/-- With the tick that a thread waits for it is ready, and has timed out. -/
theorem Blocked.timeout {tail : Tail} {n : Nat} (h : Sound idle s) (hb : Blocked s t tail n)
    (hn : n ≤ 1) : ((s.step .tick).1.kernel.thread t).stat = .ready ∧
      ((s.step .tick).1.kernel.thread t).error = .timeout := by
  obtain ⟨-, -, -, hticked⟩ := rtTickIncrease_spec h.kernel.queues h.kernel.timers h.kernel.waits
  have hdue := hticked.due t hb.activated (by rw [hb.left]; exact hn)
  show (s.kernel.rtTickIncrease.thread t).stat = _ ∧ (s.kernel.rtTickIncrease.thread t).error = _
  rw [hdue]
  exact ⟨rfl, rfl⟩

/-- An action that is no tick leaves a thread blocked as it is, but for a
release that picks it. -/
theorem Blocked.other {tail : Tail} {n : Nat} (h : Sound idle s) (ha : a.Allowed idle s)
    (htick : a ≠ .tick) (hb : Blocked s t tail n) :
    Blocked (s.step a).1 t tail n ∨ Picked s a (s.step a).1 t := by
  obtain ⟨hnow, htail, hthread⟩ := step_suspended h ha htick hb.stat
  refine hthread.imp_left fun hsame => ⟨?_, ?_, ?_, htail.trans hb.tail⟩
  · rw [hsame]
    exact hb.stat
  · rw [hsame]
    exact hb.activated
  · rw [Kernel.left, hsame, hnow]
    exact hb.left

/-- How the waiting of a thread ends with an action: by the tick it asked for,
or before that by a release. -/
structure Ended (s : Tasks) (t : Nat) (tail : Tail) (n : Nat) (as : List Act) (a : Act) : Prop where
  before : s.Suspended t as
  stat : ((s.after (as ++ [a])).kernel.thread t).stat = .ready
  why : ((s.after (as ++ [a])).kernel.thread t).error = .timeout ∧ a = .tick ∧
      as.count .tick + 1 = max 1 n ∨
    ((s.after (as ++ [a])).kernel.thread t).error = .ok ∧ as.count .tick < max 1 n ∧
      ∃ i, tail = .semTake i ∧ a.Releases i

/-- One action more: a thread that has been blocked still is, or its waiting
ends with the action. -/
theorem Blocked.step {tail : Tail} {n : Nat} (h : Sound idle s) (hr : Runs idle s as es s')
    (ha : a.Allowed idle s') (hlt : as.count .tick < max 1 n)
    (hb : Blocked s' t tail (n - as.count .tick)) (hbefore : s.Suspended t as) :
    (as ++ [a]).count .tick < max 1 n ∧
        Blocked (s'.step a).1 t tail (n - (as ++ [a]).count .tick) ∨ Ended s t tail n as a := by
  have hsound := h.runs hr
  have hafter : s.after (as ++ [a]) = (s'.step a).1 := by rw [Tasks.after_concat, hr.after_eq]
  by_cases htick : a = .tick
  · subst htick
    have hcount : (as ++ [Act.tick]).count .tick = as.count .tick + 1 := by
      rw [List.count_append, List.count_singleton_self]
    by_cases hlast : n - as.count .tick ≤ 1
    · obtain ⟨hstat, herror⟩ := hb.timeout hsound hlast
      refine .inr ⟨hbefore, hafter ▸ hstat, .inl ⟨hafter ▸ herror, rfl, ?_⟩⟩
      omega
    · rw [hcount, ← Nat.sub_sub]
      exact .inl ⟨by omega, hb.tick hsound (Nat.not_le.mp hlast)⟩
  · have hcount : (as ++ [a]).count .tick = as.count .tick := by
      rw [List.count_append, List.count_singleton, if_neg (by simpa using htick), Nat.add_zero]
    rcases hb.other hsound ha htick with hb' | hpicked
    · exact .inl (by rw [hcount]; exact ⟨hlt, hb'⟩)
    · obtain ⟨i, hi, hrelease⟩ := hpicked.release
      have htail : tail = .semTake i := Option.some.inj (hb.tail.symm.trans hi)
      exact .inr ⟨hbefore, hafter ▸ hpicked.stat,
        .inr ⟨hafter ▸ hpicked.error, hlt, i, htail, hrelease⟩⟩

/-- In every run a thread that is blocked stays so, or its waiting has ended
with one of the actions. -/
theorem Blocked.runs {tail : Tail} {n : Nat} (h : Sound idle s) (hb : Blocked s t tail n)
    (hr : Runs idle s as es s') :
    as.count .tick < max 1 n ∧ Blocked s' t tail (n - as.count .tick) ∧ s.Suspended t as ∨
      ∃ as1 a as2, as = as1 ++ a :: as2 ∧ Ended s t tail n as1 a := by
  induction hr with
  | start =>
    refine .inl ⟨Nat.lt_of_lt_of_le Nat.zero_lt_one (Nat.le_max_left ..), hb, fun as0 has0 => ?_⟩
    rw [List.prefix_nil.mp has0]
    exact hb.stat
  | @step as es s' a hr ha ih =>
    rcases ih with ⟨hlt, hb', hbefore⟩ | ⟨as1, a1, as2, rfl, hended⟩
    · rcases hb'.step h hr ha hlt hbefore with ⟨hlt', hb''⟩ | hended
      · refine .inl ⟨hlt', hb'', hbefore.concat ?_⟩
        rw [Tasks.after_concat, hr.after_eq]
        exact hb''.stat
      · exact .inr ⟨as, a, [], rfl, hended⟩
    · exact .inr ⟨as1, a1, as2 ++ [a], by simp, hended⟩

/-- A thread that goes to sleep has its timer running. -/
theorem blocked_sleep {tick : BitVec 32} (h : Sound idle s)
    (ha : Act.Allowed idle s (.call (.sleep tick))) :
    Blocked (s.step (.call (.sleep tick))).1 s.kernel.currentThread .sleep tick.toNat := by
  obtain ⟨hrest, -, -, htick⟩ := ha
  obtain ⟨-, hkeeps, hthread, -⟩ :=
    h.kernel.timers.rtThreadSleep (h.ready (not_scheduling hrest)) htick
  have hself : (s.kernel.rtThreadSleep tick).thread s.kernel.currentThread = _ :=
    (congrFun hthread _).trans (Function.update_self ..)
  refine ⟨congrArg Thread.stat hself, congrArg (Timer.activated ∘ Thread.threadTimer) hself, ?_, ?_⟩
  · show (s.kernel.rtThreadSleep tick).left (s.kernel.rtThreadSleep tick).tick
      s.kernel.currentThread = _
    rw [Kernel.left, hself, hkeeps.tick]
    show (s.kernel.tick + tick - s.kernel.tick).toNat = _
    rw [BitVec.add_comm, BitVec.add_sub_cancel]
  · show (s.pause _ _).tail s.kernel.currentThread = _
    rw [Tasks.tail_pause, Function.update_self]
    rfl

/-- **A sleep is exact.** A thread that calls `rt_thread_sleep` is suspended
until the tick it asked for, counted from the call and at least the next one,
and with that tick it is ready: whatever the other threads call and however
the interrupts come, and also when they wrap the tick counter around. -/
theorem sleeps_exactly {tick : BitVec 32} {as' : List Act} {es' : List Event}
    (h : Startup idle thread sem threads)
    (hr : Runs idle (rtthreadStartup thread sem threads) as es s)
    (ha : Act.Allowed idle s (.call (.sleep tick)))
    (hr' : Runs idle (s.step (.call (.sleep tick))).1 as' es' s') :
    let asleep := (s.step (.call (.sleep tick))).1
    let t := s.kernel.currentThread
    as'.count .tick < max 1 tick.toNat ∧ asleep.Suspended t as' ∨
      ∃ as1 as2, as' = as1 ++ .tick :: as2 ∧ as1.count .tick + 1 = max 1 tick.toNat ∧
        asleep.Suspended t as1 ∧
        ((asleep.after (as1 ++ [.tick])).kernel.thread t).stat = .ready := by
  intro asleep t
  have hsound := (sound_startup h).1.runs hr
  rcases (blocked_sleep hsound ha).runs (hsound.step ha) hr' with
    ⟨hlt, -, hsuspended⟩ | ⟨as1, a, as2, rfl, hended⟩
  · exact .inl ⟨hlt, hsuspended⟩
  · rcases hended.why with ⟨-, rfl, hcount⟩ | ⟨-, -, i, hi, -⟩
    · exact .inr ⟨as1, as2, rfl, hcount, hended.before, hended.stat⟩
    · exact Tail.noConfusion hi

/-- A sleep for two ticks ends with the second one. -/
theorem sleeps_exactly_two : ∃ as1 as2, [Act.goOn, .tick, .tick] = as1 ++ .tick :: as2 ∧
    as1.count .tick + 1 = 2 ∧ (smallSystem.step (.call (.sleep 2))).1.Suspended 1 as1 := by
  have hallowed : Act.Allowed 0 smallSystem (.call (.sleep 2)) := by decide
  have hcurrent : smallSystem.kernel.currentThread = 1 := by decide
  have hruns := sleeps_exactly startup_small Runs.start hallowed
    (((Runs.start.step (a := .goOn) (by decide)).step (a := .tick) (by decide)).step
      (a := .tick) (by decide))
  obtain ⟨as1, as2, heq, hcount, hsuspended, -⟩ :=
    hruns.resolve_left fun hfew => absurd hfew.1 (by decide)
  exact ⟨as1, as2, heq, hcount, hcurrent ▸ hsuspended⟩

/-- A thread that waits for a semaphore with a time has its timer running. -/
theorem blocked_semTake {time : Int} (h : Sound idle s)
    (ha : Act.Allowed idle s (.call (.semTake i time))) (hvalue : (s.kernel.sem i).value = 0)
    (htime : 0 < time) : Blocked (s.step (.call (.semTake i time))).1 s.kernel.currentThread
      (.semTake i) time.toNat := by
  obtain ⟨hrest, hc⟩ := ha
  obtain ⟨-, -, hlt⟩ := hc.of_waits hvalue (Int.ne_of_gt htime)
  obtain ⟨hwaits, -, hkeeps, -, hthread, -⟩ :=
    rtSemTake_waits (i := i) h.kernel.waits h.kernel.timers
    (h.ready (not_scheduling hrest)) hvalue (Int.ne_of_gt htime) hlt
  have hself : (s.kernel.rtSemTake i time).1.thread s.kernel.currentThread = _ :=
    (congrFun hthread _).trans (Function.update_self ..)
  have hcall : (s.step (.call (.semTake i time))).1 =
      s.pause (s.kernel.rtSemTake i time).1 (some (.schedule (some (.semTake i)))) := by
    rcases htake : s.kernel.rtSemTake i time with ⟨k, taken⟩
    rw [htake] at hwaits
    obtain rfl : taken = .waits := hwaits
    simp only [Tasks.step, Tasks.call, htake]
  rw [if_pos htime] at hself
  rw [hcall]
  refine ⟨congrArg Thread.stat hself, congrArg (Timer.activated ∘ Thread.threadTimer) hself, ?_, ?_⟩
  · show (s.kernel.rtSemTake i time).1.left (s.kernel.rtSemTake i time).1.tick
      s.kernel.currentThread = _
    rw [Kernel.left, hself, hkeeps.tick]
    show (s.kernel.tick + BitVec.ofInt 32 time - s.kernel.tick).toNat = _
    rw [BitVec.add_comm, BitVec.add_sub_cancel, BitVec.toNat_ofInt]
    rw [half_eq] at hlt
    omega
  · rw [Tasks.tail_pause, Function.update_self]
    rfl

/-- **Waiting is bounded.** A thread that takes a semaphore with a time, when
there is none, is suspended until a release of this semaphore picks it or the
tick comes that it asked for, and then it is ready: with "no error" if it was
picked, which is then before that tick, and with a time-out at that tick. -/
theorem waits_at_most {time : Int} {as' : List Act} {es' : List Event}
    (h : Startup idle thread sem threads)
    (hr : Runs idle (rtthreadStartup thread sem threads) as es s)
    (ha : Act.Allowed idle s (.call (.semTake i time))) (hvalue : (s.kernel.sem i).value = 0)
    (htime : 0 < time) (hr' : Runs idle (s.step (.call (.semTake i time))).1 as' es' s') :
    let waiting := (s.step (.call (.semTake i time))).1
    let t := s.kernel.currentThread
    as'.count .tick < time.toNat ∧ waiting.Suspended t as' ∨
      ∃ as1 a as2, as' = as1 ++ a :: as2 ∧ waiting.Suspended t as1 ∧
        ((waiting.after (as1 ++ [a])).kernel.thread t).stat = .ready ∧
        (((waiting.after (as1 ++ [a])).kernel.thread t).error = .timeout ∧ a = .tick ∧
            as1.count .tick + 1 = time.toNat ∨
          ((waiting.after (as1 ++ [a])).kernel.thread t).error = .ok ∧ a.Releases i ∧
            as1.count .tick < time.toNat) := by
  intro waiting t
  have hsound := (sound_startup h).1.runs hr
  have hmax : max 1 time.toNat = time.toNat := by omega
  rcases (blocked_semTake hsound ha hvalue htime).runs (hsound.step ha) hr' with
    ⟨hlt, -, hsuspended⟩ | ⟨as1, a, as2, rfl, hended⟩
  · exact .inl ⟨hmax ▸ hlt, hsuspended⟩
  · refine .inr ⟨as1, a, as2, rfl, hended.before, hended.stat, ?_⟩
    rcases hended.why with ⟨herror, htick, hcount⟩ | ⟨herror, hlt, j, hj, hrelease⟩
    · exact .inl ⟨herror, htick, hmax ▸ hcount⟩
    · obtain rfl := Tail.semTake.inj hj
      exact .inr ⟨herror, hrelease, hmax ▸ hlt⟩

/-- A wait of two ticks for a semaphore that nobody releases ends with the
second one. -/
theorem waits_at_most_two : ∃ as1 as2, [Act.goOn, .tick, .tick] = as1 ++ .tick :: as2 ∧
    as1.count .tick + 1 = 2 ∧
    (((smallSystem.step (.call (.semTake 0 2))).1.after (as1 ++ [.tick])).kernel.thread 1).error =
      .timeout := by
  have hallowed : Act.Allowed 0 smallSystem (.call (.semTake 0 2)) := by decide
  have hcurrent : smallSystem.kernel.currentThread = 1 := by decide
  have hruns := waits_at_most startup_small Runs.start hallowed (by decide) (by decide)
    (((Runs.start.step (a := .goOn) (by decide)).step (a := .tick) (by decide)).step
      (a := .tick) (by decide))
  obtain ⟨as1, a, as2, heq, -, -, hwhy⟩ :=
    hruns.resolve_left fun hfew => absurd hfew.1 (by decide)
  have hno : ¬ a.Releases 0 := by
    have hmem : a ∈ [Act.goOn, .tick, .tick] := (congrArg (a ∈ ·) heq).mpr (by simp)
    rintro (rfl | rfl)
    · exact absurd hmem (by decide)
    · exact absurd hmem (by decide)
  rcases hwhy with ⟨herror, rfl, hcount⟩ | ⟨-, hrelease, -⟩
  · exact ⟨as1, as2, heq, hcount, hcurrent ▸ herror⟩
  · exact absurd hrelease hno

end Ch583Kbd.Rtt
