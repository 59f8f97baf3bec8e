/-
Ch583Kbd.Rtt.Kernel — the kernel: threads, their timers and the scheduler
(`scheduler.c`, `thread.c`, `timer.c`, `clock.c`).

Threads and semaphores have numbers here. A list of the source is a list of
these numbers; a thread's node `tlist` is in one list at most, so to remove
it is to erase the thread from the lists that there are. The timers are the
threads' own: this firmware creates no others, and no soft ones. The skip
list has one level.

What a function does up to a call of `rt_schedule` with interrupts enabled,
and what it does behind it, are two definitions: in between there may be an
interrupt. Left out are hooks, names, stacks and the check of the object's
class; `RT_ASSERT` is empty in this build. The priority that
`rt_current_priority` keeps is read nowhere. `rt_scheduler_lock_nest` does
not overflow here.
-/
import Mathlib.Algebra.Group.Nat.Defs
import Mathlib.Logic.Function.Basic
import Mathlib.Data.List.Basic

namespace Ch583Kbd.Rtt

/-! ## `__rt_ffs` -/

/-- `__lowest_bit_bitmap`. -/
def lowestBitBitmap : List Nat :=
  [0, 0, 1, 0, 2, 0, 1, 0, 3, 0, 1, 0, 2, 0, 1, 0,
   4, 0, 1, 0, 2, 0, 1, 0, 3, 0, 1, 0, 2, 0, 1, 0,
   5, 0, 1, 0, 2, 0, 1, 0, 3, 0, 1, 0, 2, 0, 1, 0,
   4, 0, 1, 0, 2, 0, 1, 0, 3, 0, 1, 0, 2, 0, 1, 0,
   6, 0, 1, 0, 2, 0, 1, 0, 3, 0, 1, 0, 2, 0, 1, 0,
   4, 0, 1, 0, 2, 0, 1, 0, 3, 0, 1, 0, 2, 0, 1, 0,
   5, 0, 1, 0, 2, 0, 1, 0, 3, 0, 1, 0, 2, 0, 1, 0,
   4, 0, 1, 0, 2, 0, 1, 0, 3, 0, 1, 0, 2, 0, 1, 0,
   7, 0, 1, 0, 2, 0, 1, 0, 3, 0, 1, 0, 2, 0, 1, 0,
   4, 0, 1, 0, 2, 0, 1, 0, 3, 0, 1, 0, 2, 0, 1, 0,
   5, 0, 1, 0, 2, 0, 1, 0, 3, 0, 1, 0, 2, 0, 1, 0,
   4, 0, 1, 0, 2, 0, 1, 0, 3, 0, 1, 0, 2, 0, 1, 0,
   6, 0, 1, 0, 2, 0, 1, 0, 3, 0, 1, 0, 2, 0, 1, 0,
   4, 0, 1, 0, 2, 0, 1, 0, 3, 0, 1, 0, 2, 0, 1, 0,
   5, 0, 1, 0, 2, 0, 1, 0, 3, 0, 1, 0, 2, 0, 1, 0,
   4, 0, 1, 0, 2, 0, 1, 0, 3, 0, 1, 0, 2, 0, 1, 0]

def lowestBit (byte : BitVec 32) : Nat := lowestBitBitmap.getD byte.toNat 0

def rtFfs (value : BitVec 32) : Nat :=
  if value = 0 then 0
  else if value &&& 0xff ≠ 0 then lowestBit (value &&& 0xff) + 1
  else if value &&& 0xff00 ≠ 0 then lowestBit ((value &&& 0xff00) >>> 8) + 9
  else if value &&& 0xff0000 ≠ 0 then lowestBit ((value &&& 0xff0000) >>> 16) + 17
  else lowestBit ((value &&& 0xff000000) >>> 24) + 25

/-! ## Data -/

def rtThreadPriorityMax : Nat := 8

def rtTickMax : BitVec 32 := 0xffffffff

/-- `RT_SEM_VALUE_MAX`. -/
def rtSemValueMax : BitVec 16 := 0xffff

/-- What `RT_THREAD_STAT_MASK` selects. -/
inductive Stat
  | init | ready | suspend | close
  deriving DecidableEq, Repr

inductive Err
  | ok | error | timeout | full
  deriving DecidableEq, Repr

/-- The timer of a thread, a one-shot one. -/
structure Timer where
  activated : Bool
  initTick : BitVec 32
  timeoutTick : BitVec 32
  deriving DecidableEq, Repr

structure Thread where
  stat : Stat
  initPriority : Nat
  currentPriority : Nat
  numberMask : BitVec 32
  initTick : BitVec 32
  remainingTick : BitVec 32
  error : Err
  threadTimer : Timer
  deriving DecidableEq, Repr

/-- `_rt_thread_init`. -/
def rtThreadInit (priority : Nat) (tick : BitVec 32) : Thread :=
  ⟨.init, priority, priority, 0, tick, tick, .ok, ⟨false, 0, 0⟩⟩

/-- `RT_IPC_FLAG_FIFO` and `RT_IPC_FLAG_PRIO`. -/
inductive IpcFlag
  | fifo | prio
  deriving DecidableEq, Repr

structure Semaphore where
  value : BitVec 16
  suspendThread : List Nat
  flag : IpcFlag
  deriving DecidableEq, Repr

/-- The variables of the kernel. -/
structure Kernel where
  thread : Nat → Thread
  sem : Nat → Semaphore
  priorityTable : Nat → List Nat
  readyPriorityGroup : BitVec 32
  currentThread : Nat
  schedulerLockNest : Nat
  timerList : List Nat
  tick : BitVec 32

namespace Kernel

def setThread (k : Kernel) (t : Nat) (th : Thread) : Kernel :=
  { k with thread := Function.update k.thread t th }

def setTimer (k : Kernel) (t : Nat) (timer : Timer) : Kernel :=
  k.setThread t { k.thread t with threadTimer := timer }

/-- `rt_list_remove(&(thread->tlist))`. -/
def removeTlist (k : Kernel) (t : Nat) : Kernel :=
  { k with
    priorityTable := fun p => (k.priorityTable p).erase t
    sem := fun i => { k.sem i with suspendThread := (k.sem i).suspendThread.erase t } }

/-! ## `timer.c` -/

/-- `_rt_timer_remove`. -/
def rtTimerRemove (k : Kernel) (t : Nat) : Kernel := { k with timerList := k.timerList.erase t }

/-- The place of a timer in the list: before the first one that is later. -/
def insertTimer (k : Kernel) (t : Nat) : List Nat → List Nat
  | [] => [t]
  | p :: ps =>
    let d := (k.thread p).threadTimer.timeoutTick - (k.thread t).threadTimer.timeoutTick
    if d = 0 then p :: k.insertTimer t ps
    else if d < rtTickMax / 2 then t :: p :: ps
    else p :: k.insertTimer t ps

def rtTimerStart (k : Kernel) (t : Nat) : Kernel :=
  let k1 := (k.rtTimerRemove t).setTimer t { (k.thread t).threadTimer with
    activated := false
    timeoutTick := k.tick + (k.thread t).threadTimer.initTick }
  let k2 := { k1 with timerList := k1.insertTimer t k1.timerList }
  k2.setTimer t { (k2.thread t).threadTimer with activated := true }

def rtTimerStop (k : Kernel) (t : Nat) : Kernel :=
  if (k.thread t).threadTimer.activated then
    (k.rtTimerRemove t).setTimer t { (k.thread t).threadTimer with activated := false }
  else k

/-- `rt_timer_control` with `RT_TIMER_CTRL_SET_TIME`. -/
def setTime (k : Kernel) (t : Nat) (tick : BitVec 32) : Kernel :=
  k.setTimer t { (k.thread t).threadTimer with initTick := tick }

/-! ## `scheduler.c` -/

/-- The list of the highest priority that is ready has a thread, as long as
the idle thread is. -/
def rtSchedule (k : Kernel) : Kernel :=
  if k.schedulerLockNest = 0 then
    match (k.priorityTable (rtFfs k.readyPriorityGroup - 1)).head? with
    | none => k
    | some toThread => { k with currentThread := toThread }
  else k

def rtScheduleInsertThread (k : Kernel) (t : Nat) : Kernel :=
  let k1 := k.setThread t { k.thread t with stat := .ready }
  let p := (k1.thread t).currentPriority
  { k1 with
    priorityTable := Function.update k1.priorityTable p (k1.priorityTable p ++ [t])
    readyPriorityGroup := k1.readyPriorityGroup ||| (k1.thread t).numberMask }

def rtScheduleRemoveThread (k : Kernel) (t : Nat) : Kernel :=
  let k1 := k.removeTlist t
  if k1.priorityTable (k.thread t).currentPriority = [] then
    { k1 with readyPriorityGroup := k1.readyPriorityGroup &&& ~~~(k.thread t).numberMask }
  else k1

def rtEnterCritical (k : Kernel) : Kernel := { k with schedulerLockNest := k.schedulerLockNest + 1 }

/-- `rt_exit_critical`, and whether it goes on to `rt_schedule`. -/
def rtExitCritical (k : Kernel) : Kernel × Bool :=
  if k.schedulerLockNest ≤ 1 then ({ k with schedulerLockNest := 0 }, true)
  else ({ k with schedulerLockNest := k.schedulerLockNest - 1 }, false)

/-! ## `thread.c` -/

def rtThreadSuspend (k : Kernel) (t : Nat) : Kernel :=
  if (k.thread t).stat ≠ .ready then k
  else
    let k1 := k.rtScheduleRemoveThread t
    (k1.setThread t { k1.thread t with stat := .suspend }).rtTimerStop t

def rtThreadResume (k : Kernel) (t : Nat) : Kernel :=
  if (k.thread t).stat ≠ .suspend then k
  else ((k.removeTlist t).rtTimerStop t).rtScheduleInsertThread t

/-- `rt_thread_startup`, up to "do a scheduling". -/
def rtThreadStartup (k : Kernel) (t : Nat) : Kernel :=
  let k1 := k.setThread t { k.thread t with
    currentPriority := (k.thread t).initPriority
    numberMask := 1 <<< (k.thread t).initPriority
    stat := .suspend }
  k1.rtThreadResume t

/-- `rt_thread_exit`: with interrupts disabled to the end. -/
def rtThreadExit (k : Kernel) : Kernel :=
  let t := k.currentThread
  let k1 := k.rtScheduleRemoveThread t
  let k2 := (k1.setThread t { k1.thread t with stat := .close }).rtTimerRemove t
  (k2.setTimer t { (k2.thread t).threadTimer with activated := false }).rtSchedule

/-- `rt_thread_yield`, and whether it goes on to `rt_schedule`. A node that is
alone in its list has the same neighbour on both sides. -/
def rtThreadYield (k : Kernel) : Kernel × Bool :=
  let t := k.currentThread
  let p := (k.thread t).currentPriority
  if (k.thread t).stat = .ready ∧ 1 < (k.priorityTable p).length then
    let k1 := k.removeTlist t
    ({ k1 with priorityTable :=
      Function.update k1.priorityTable p (k1.priorityTable p ++ [t]) }, true)
  else (k, false)

/-- `rt_thread_sleep`, up to `rt_schedule`. -/
def rtThreadSleep (k : Kernel) (tick : BitVec 32) : Kernel :=
  let t := k.currentThread
  ((k.rtThreadSuspend t).setTime t tick).rtTimerStart t

/-- "clear error number of this thread to RT_EOK". -/
def sleepEnd (k : Kernel) : Kernel :=
  let t := k.currentThread
  if (k.thread t).error = .timeout then k.setThread t { k.thread t with error := .ok } else k

def rtThreadTimeout (k : Kernel) (t : Nat) : Kernel :=
  let k1 := (k.setThread t { k.thread t with error := .timeout }).removeTlist t
  (k1.rtScheduleInsertThread t).rtSchedule

/-! ## `clock.c` -/

/-- One round of `rt_timer_check`, for a timer that is due. -/
def fireTimer (k : Kernel) (t : Nat) : Kernel :=
  let k1 := (k.rtTimerRemove t).setTimer t { (k.thread t).threadTimer with activated := false }
  k1.rtThreadTimeout t

/-- "while (!rt_list_isempty(…))". -/
def timerCheckLoop : Nat → Kernel → Kernel
  | 0, k => k
  | fuel + 1, k =>
    match k.timerList with
    | [] => k
    | t :: _ =>
      if k.tick - (k.thread t).threadTimer.timeoutTick < rtTickMax / 2 then
        timerCheckLoop fuel (k.fireTimer t)
      else k

/-- Every round removes a timer and no thread's timer starts one. -/
def rtTimerCheck (k : Kernel) : Kernel := timerCheckLoop k.timerList.length k

/-- "check time slice". -/
def checkTimeSlice (k : Kernel) : Kernel :=
  let t := k.currentThread
  let remaining := (k.thread t).remainingTick - 1
  let k1 := k.setThread t { k.thread t with remainingTick := remaining }
  if remaining = 0 then
    let k2 := k1.setThread t { k1.thread t with remainingTick := (k1.thread t).initTick }
    match k2.rtThreadYield with
    | (k, true) => k.rtSchedule
    | (k, false) => k
  else k1

def rtTickIncrease (k : Kernel) : Kernel :=
  ({ k with tick := k.tick + 1 } : Kernel).checkTimeSlice.rtTimerCheck

/-! ## `ipc.c` -/

/-- "find a suitable position". -/
def insertByPriority (k : Kernel) (t : Nat) : List Nat → List Nat
  | [] => [t]
  | s :: rest =>
    if (k.thread t).currentPriority < (k.thread s).currentPriority then t :: s :: rest
    else s :: k.insertByPriority t rest

/-- `rt_ipc_list_suspend`, on the list of a semaphore. -/
def rtIpcListSuspend (k : Kernel) (i t : Nat) : Kernel :=
  let k1 := k.rtThreadSuspend t
  let waiting := (k1.sem i).suspendThread
  let waiting := match (k1.sem i).flag with
    | .fifo => waiting ++ [t]
    | .prio => k1.insertByPriority t waiting
  { k1 with sem := Function.update k1.sem i { k1.sem i with suspendThread := waiting } }

/-- What `rt_sem_take` comes to, up to `rt_schedule`. -/
inductive Taken
  | returned (e : Err)
  | waits
  deriving DecidableEq, Repr

def rtSemTake (k : Kernel) (i : Nat) (time : Int) : Kernel × Taken :=
  let t := k.currentThread
  if (k.sem i).value ≠ 0 then
    ({ k with sem := Function.update k.sem i { k.sem i with value := (k.sem i).value - 1 } },
      .returned .ok)
  else if time = 0 then (k, .returned .timeout)
  else
    let k1 := (k.setThread t { k.thread t with error := .ok }).rtIpcListSuspend i t
    let k2 := if time > 0 then (k1.setTime t (BitVec.ofInt 32 time)).rtTimerStart t else k1
    (k2, .waits)

/-- What `rt_sem_release` comes to, up to `rt_schedule`. -/
def rtSemRelease (k : Kernel) (i : Nat) : Kernel × Err × Bool :=
  match (k.sem i).suspendThread with
  | t :: _ => (k.rtThreadResume t, .ok, true)
  | [] =>
    if (k.sem i).value < rtSemValueMax then
      ({ k with sem := Function.update k.sem i { k.sem i with value := (k.sem i).value + 1 } },
        .ok, false)
    else (k, .full, false)

end Kernel

end Ch583Kbd.Rtt
