/-
Ch583Kbd.Rtt.Tasks — threads and interrupts, step by step.

A thread that has called a function of the kernel may still have a part of
it before it (`Rest`): to call `rt_schedule`, and then what is behind that
call. An interrupt can come before each of these parts. The interrupts that
call the kernel do not interrupt one another.

A thread that is not the current one does nothing; when it is switched to
again it goes on where it was. Left out is the thread for soft timers: it
finds none and suspends itself.
-/
import Ch583Kbd.Rtt.KernelQueues

namespace Ch583Kbd.Rtt

/-- What is behind a call of `rt_schedule`. -/
inductive Tail
  | sleep
  | semTake (i : Nat)
  deriving DecidableEq, Repr

/-- What a thread has before it in a function of the kernel. -/
inductive Rest
  | schedule (tail : Option Tail)
  | behind (tail : Tail)
  deriving DecidableEq, Repr

def Rest.tail : Rest → Option Tail
  | .schedule tail => tail
  | .behind tail => some tail

/-- The kernel, and where the threads are in it. -/
structure Tasks where
  kernel : Kernel
  rest : Nat → Option Rest

/-- The functions that the threads call. -/
inductive Call
  | startup (t : Nat)
  | exit
  | yield
  | sleep (tick : BitVec 32)
  | enterCritical
  | exitCritical
  | semTake (i : Nat) (time : Int)
  | semRelease (i : Nat)
  deriving DecidableEq, Repr

/-- The current thread calls a function or goes on in one; the tick interrupt
comes, or one that releases a semaphore. -/
inductive Act
  | call (c : Call)
  | goOn
  | tick
  | isrRelease (i : Nat)
  deriving DecidableEq, Repr

/-- What becomes known of the semaphores. -/
inductive Event
  | taken (t i : Nat)
  | refused (t i : Nat) (e : Err)
  | released (i : Nat)
  | full (i : Nat)
  deriving DecidableEq, Repr

namespace Tasks

/-- The current thread has called into the kernel and has `rest` before it. -/
def pause (s : Tasks) (k : Kernel) (rest : Option Rest) : Tasks :=
  ⟨k, Function.update s.rest s.kernel.currentThread rest⟩

def call (s : Tasks) : Call → Tasks × Option Event
  | .startup t => (s.pause (s.kernel.rtThreadStartup t) (some (.schedule none)), none)
  | .exit => (s.pause s.kernel.rtThreadExit none, none)
  | .yield =>
    match s.kernel.rtThreadYield with
    | (k, true) => (s.pause k (some (.schedule none)), none)
    | (k, false) => (s.pause k none, none)
  | .sleep tick => (s.pause (s.kernel.rtThreadSleep tick) (some (.schedule (some .sleep))), none)
  | .enterCritical => (s.pause s.kernel.rtEnterCritical none, none)
  | .exitCritical =>
    match s.kernel.rtExitCritical with
    | (k, true) => (s.pause k (some (.schedule none)), none)
    | (k, false) => (s.pause k none, none)
  | .semTake i time =>
    match s.kernel.rtSemTake i time with
    | (k, .returned .ok) => (s.pause k none, some (.taken s.kernel.currentThread i))
    | (k, .returned e) => (s.pause k none, some (.refused s.kernel.currentThread i e))
    | (k, .waits) => (s.pause k (some (.schedule (some (.semTake i)))), none)
  | .semRelease i =>
    match s.kernel.rtSemRelease i with
    | (k, .ok, true) => (s.pause k (some (.schedule none)), some (.released i))
    | (k, .ok, false) => (s.pause k none, some (.released i))
    | (k, _, _) => (s.pause k none, some (.full i))

def goOn (s : Tasks) : Tasks × Option Event :=
  let t := s.kernel.currentThread
  match s.rest t with
  | none => (s, none)
  | some (.schedule tail) => (s.pause s.kernel.rtSchedule (tail.map .behind), none)
  | some (.behind .sleep) => (s.pause s.kernel.sleepEnd none, none)
  | some (.behind (.semTake i)) =>
    match (s.kernel.thread t).error with
    | .ok => (s.pause s.kernel none, some (.taken t i))
    | e => (s.pause s.kernel none, some (.refused t i e))

/-- `rt_sem_release` in an interrupt, with the `rt_schedule` it ends in. -/
def isrRelease (s : Tasks) (i : Nat) : Tasks × Option Event :=
  match s.kernel.rtSemRelease i with
  | (k, .ok, true) => (⟨k.rtSchedule, s.rest⟩, some (.released i))
  | (k, .ok, false) => (⟨k, s.rest⟩, some (.released i))
  | (k, _, _) => (⟨k, s.rest⟩, some (.full i))

def step (s : Tasks) : Act → Tasks × Option Event
  | .call c => s.call c
  | .goOn => s.goOn
  | .tick => (⟨s.kernel.rtTickIncrease, s.rest⟩, none)
  | .isrRelease i => s.isrRelease i

end Tasks

/-- What `rt_scheduler_lock_nest`, an `rt_int16_t`, can count to. -/
def lockNestMax : Nat := 0x7fff

/-- Only a thread that may be switched away from waits for something, and
never the idle thread: while the scheduler is locked, and in the idle thread,
`rt_sem_take` is called for a semaphore that has a value, or without a time.
A thread is started once. The ticks are less than half of those there are,
and the scheduler is not locked more often than can be counted. -/
def Call.Allowed (idle : Nat) (k : Kernel) : Call → Prop
  | .startup t => (k.thread t).stat = .init
  | .exit => k.schedulerLockNest = 0 ∧ k.currentThread ≠ idle
  | .sleep tick => k.schedulerLockNest = 0 ∧ k.currentThread ≠ idle ∧ tick < rtTickMax / 2
  | .semTake i time => (k.sem i).value ≠ 0 ∨ time = 0 ∨
    k.schedulerLockNest = 0 ∧ k.currentThread ≠ idle ∧ time < (rtTickMax / 2).toNat
  | .enterCritical => k.schedulerLockNest < lockNestMax
  | _ => True

def Act.Allowed (idle : Nat) (s : Tasks) : Act → Prop
  | .call c => s.rest s.kernel.currentThread = none ∧ c.Allowed idle s.kernel
  | .goOn => s.rest s.kernel.currentThread ≠ none
  | _ => True

instance (idle : Nat) (k : Kernel) : (c : Call) → Decidable (c.Allowed idle k)
  | .startup t => inferInstanceAs (Decidable ((k.thread t).stat = .init))
  | .exit => inferInstanceAs (Decidable (k.schedulerLockNest = 0 ∧ k.currentThread ≠ idle))
  | .sleep tick => inferInstanceAs
    (Decidable (k.schedulerLockNest = 0 ∧ k.currentThread ≠ idle ∧ tick < rtTickMax / 2))
  | .semTake i time => inferInstanceAs (Decidable ((k.sem i).value ≠ 0 ∨ time = 0 ∨
    k.schedulerLockNest = 0 ∧ k.currentThread ≠ idle ∧ time < (rtTickMax / 2).toNat))
  | .enterCritical => inferInstanceAs (Decidable (k.schedulerLockNest < lockNestMax))
  | .yield | .exitCritical | .semRelease _ => inferInstanceAs (Decidable True)

instance (idle : Nat) (s : Tasks) : (a : Act) → Decidable (a.Allowed idle s)
  | .call c => inferInstanceAs
    (Decidable (s.rest s.kernel.currentThread = none ∧ c.Allowed idle s.kernel))
  | .goOn => inferInstanceAs (Decidable (s.rest s.kernel.currentThread ≠ none))
  | .tick | .isrRelease _ => inferInstanceAs (Decidable True)

/-- A take that waits is one of a thread that may be switched away from. -/
theorem Call.Allowed.of_waits {idle i : Nat} {time : Int} {k : Kernel}
    (h : (Call.semTake i time).Allowed idle k) (hvalue : (k.sem i).value = 0) (htime : time ≠ 0) :
    k.schedulerLockNest = 0 ∧ k.currentThread ≠ idle ∧ time < (rtTickMax / 2).toNat :=
  (h.resolve_left (not_not.mpr hvalue)).resolve_left htime

/-! ## Start -/

/-- `rt_system_scheduler_init` and `rt_system_timer_init`, with threads and
semaphores that have been created. -/
def rtSystemSchedulerInit (thread : Nat → Thread) (sem : Nat → Semaphore) : Kernel :=
  ⟨thread, sem, fun _ => [], 0, 0, 0, [], 0⟩

/-- `rt_system_scheduler_start`. -/
def rtSystemSchedulerStart (k : Kernel) : Kernel :=
  { k with
    currentThread := (k.priorityTable (rtFfs k.readyPriorityGroup - 1)).head?.getD k.currentThread }

/-- What `rtthread_startup` does: threads are started, and then the
scheduler. -/
def rtthreadStartup (thread : Nat → Thread) (sem : Nat → Semaphore) (threads : List Nat) : Tasks :=
  ⟨rtSystemSchedulerStart (threads.foldl Kernel.rtThreadStartup (rtSystemSchedulerInit thread sem)),
    fun _ => none⟩

/-- What can happen from a state on: the actions, what becomes known of the
semaphores, and the state in the end. -/
inductive Runs (idle : Nat) (s0 : Tasks) : List Act → List Event → Tasks → Prop
  | start : Runs idle s0 [] [] s0
  | step {as : List Act} {es : List Event} {s : Tasks} {a : Act} : Runs idle s0 as es s →
    a.Allowed idle s → Runs idle s0 (as ++ [a]) (es ++ (s.step a).2.toList) (s.step a).1

/-- The state after some actions. -/
def Tasks.after (s : Tasks) (as : List Act) : Tasks := as.foldl (fun s a => (s.step a).1) s

theorem Tasks.after_concat (s : Tasks) (as : List Act) (a : Act) :
    s.after (as ++ [a]) = ((s.after as).step a).1 := by
  rw [after, List.foldl_append]
  rfl

/-- A run ends in the state after its actions. -/
theorem Runs.after_eq {idle : Nat} {s0 s : Tasks} {as : List Act} {es : List Event}
    (h : Runs idle s0 as es s) : s0.after as = s := by
  induction h with
  | start => rfl
  | step _ _ ih => rw [Tasks.after_concat, ih]

/-- The thread is suspended now and after each of the actions. -/
def Tasks.Suspended (s : Tasks) (t : Nat) (as : List Act) : Prop :=
  ∀ as0, as0 <+: as → ((s.after as0).kernel.thread t).stat = .suspend

/-- A thread stays suspended through one more action when it is suspended after
it. -/
theorem Tasks.Suspended.concat {s : Tasks} {t : Nat} {as : List Act} {a : Act}
    (h : s.Suspended t as) (hlast : ((s.after (as ++ [a])).kernel.thread t).stat = .suspend) :
    s.Suspended t (as ++ [a]) := by
  intro as0 has0
  rcases List.prefix_concat_iff.mp has0 with rfl | has0
  · exact hlast
  · exact h as0 has0

end Ch583Kbd.Rtt
