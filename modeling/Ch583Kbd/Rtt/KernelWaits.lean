/-
Ch583Kbd.Rtt.KernelWaits — the lists of the semaphores.

`Waits tail k`, where `tail` says what each thread has before it: the list of
a semaphore has the threads that are suspended in `rt_sem_take` of it, once
each, in the order of their priorities if the semaphore is of that kind; a
semaphore with threads in its list has the value zero.
-/
import Ch583Kbd.Rtt.KernelTimers
import Ch583Kbd.Rtt.Tasks

namespace Ch583Kbd.Rtt

open Ch583Kbd.Lib

namespace Kernel

variable {k k' : Kernel} {t u i : Nat} {now : BitVec 32} {tail tail' : Nat → Option Tail}

/-- The list of a semaphore has the threads suspended in a take of it, once
each, in the order of its kind, and is empty while the value is not zero. -/
structure Waits (tail : Nat → Option Tail) (k : Kernel) : Prop where
  mem_iff : ∀ t i, t ∈ (k.sem i).suspendThread ↔
    (k.thread t).stat = .suspend ∧ tail t = some (.semTake i)
  nodup : ∀ i, (k.sem i).suspendThread.Nodup
  empty : ∀ i, (k.sem i).value ≠ 0 → (k.sem i).suspendThread = []
  pending : ∀ t, (k.thread t).stat = .suspend → tail t ≠ none
  error : ∀ t i, (k.thread t).stat = .suspend → tail t = some (.semTake i) →
    (k.thread t).error = .ok
  order : ∀ i, (k.sem i).flag = .prio → (k.sem i).suspendThread.Pairwise fun t u =>
    (k.thread t).currentPriority ≤ (k.thread u).currentPriority

/-- A thread that is not suspended is in no list of a semaphore. -/
theorem Waits.not_mem (hw : Waits tail k) (hstat : (k.thread t).stat ≠ .suspend) (i : Nat) :
    t ∉ (k.sem i).suspendThread :=
  fun hmem => hstat ((hw.mem_iff t i).mp hmem).1

/-- Taking a thread that is not suspended out of a list changes nothing. -/
theorem Waits.sem_erase (hw : Waits tail k) (hstat : (k.thread t).stat ≠ .suspend) (i : Nat) :
    { k.sem i with suspendThread := (k.sem i).suspendThread.erase t } = k.sem i := by
  rw [List.erase_of_not_mem (hw.not_mem hstat i)]

/-- Nothing happened to the threads that are suspended. -/
theorem Waits.same (hw : Waits tail k) (hsem : ∀ i, k'.sem i = k.sem i)
    (hstat : ∀ u, (k'.thread u).stat = .suspend ↔ (k.thread u).stat = .suspend)
    (hsame : ∀ u, (k.thread u).stat = .suspend → (k'.thread u).error = (k.thread u).error ∧
      (k'.thread u).currentPriority = (k.thread u).currentPriority ∧ tail' u = tail u) :
    Waits tail' k' where
  mem_iff u i := by
    rw [hsem, hw.mem_iff, hstat]
    exact and_congr_right fun hs => by rw [(hsame u hs).2.2]
  nodup i := hsem i ▸ hw.nodup i
  empty i := hsem i ▸ hw.empty i
  pending u hs := by
    have hold := (hstat u).mp hs
    rw [(hsame u hold).2.2]
    exact hw.pending u hold
  error u i hs htail := by
    have hold := (hstat u).mp hs
    rw [(hsame u hold).1]
    exact hw.error u i hold ((hsame u hold).2.2 ▸ htail)
  order i hprio := by
    rw [hsem] at hprio ⊢
    refine (hw.order i hprio).imp_of_mem fun ha hb hle => ?_
    rwa [(hsame _ ((hw.mem_iff _ i).mp ha).1).2.1, (hsame _ ((hw.mem_iff _ i).mp hb).1).2.1]

/-- A thread that is woken leaves the list it is in. -/
theorem Waits.wakes {e : Err} (hw : Waits tail k) (h : Wakes t e k k') : Waits tail k' := by
  have hself : (k'.thread t).stat = .ready := by rw [h.thread, Function.update_self]
  have hother : ∀ u, u ≠ t → k'.thread u = k.thread u := fun u hu => by
    rw [h.thread, Function.update_of_ne hu]
  have hne : ∀ u, (k'.thread u).stat = .suspend → u ≠ t := by
    intro u hs hut
    rw [hut, hself] at hs
    exact Stat.noConfusion hs
  refine ⟨fun u i => ?_, fun i => ?_, fun i hvalue => ?_, fun u hs => ?_, fun u i hs htail => ?_,
    fun i hprio => ?_⟩
  · rw [h.sem]
    show u ∈ (k.sem i).suspendThread.erase t ↔ _
    rw [(hw.nodup i).mem_erase_iff]
    by_cases hut : u = t
    · exact iff_of_false (fun hmem => hmem.1 hut) fun hs => hne u hs.1 hut
    · rw [and_iff_right hut, hother u hut]
      exact hw.mem_iff u i
  · rw [h.sem]
    exact (hw.nodup i).erase t
  · rw [h.sem] at hvalue ⊢
    show (k.sem i).suspendThread.erase t = []
    rw [hw.empty i hvalue]
    rfl
  · have hut := hne u hs
    rw [hother u hut] at hs
    exact hw.pending u hs
  · have hut := hne u hs
    rw [hother u hut] at hs ⊢
    exact hw.error u i hs htail
  · rw [h.sem] at hprio ⊢
    refine ((hw.order i hprio).sublist List.erase_sublist).imp_of_mem fun ha hb hle => ?_
    rwa [hother _ ((hw.nodup i).mem_erase_iff.mp ha).1,
      hother _ ((hw.nodup i).mem_erase_iff.mp hb).1]

/-- A semaphore nobody waits for has another value. -/
theorem Waits.setValue (hw : Waits tail k) (hnone : (k.sem i).suspendThread = []) (v : BitVec 16) :
    Waits tail { k with sem := Function.update k.sem i { k.sem i with value := v } } := by
  have hlist : ∀ j, (Function.update k.sem i { k.sem i with value := v } j).suspendThread =
      (k.sem j).suspendThread := by
    intro j
    by_cases hj : j = i
    · rw [hj, Function.update_self]
    · rw [Function.update_of_ne hj]
  refine ⟨fun u j => ?_, fun j => ?_, fun j hvalue => ?_, hw.pending, hw.error, fun j hprio => ?_⟩
  · exact hlist j ▸ hw.mem_iff u j
  · exact hlist j ▸ hw.nodup j
  · show (Function.update k.sem i { k.sem i with value := v } j).suspendThread = []
    rw [hlist]
    by_cases hj : j = i
    · rw [hj, hnone]
    · refine hw.empty j ?_
      rwa [← Function.update_of_ne (f := k.sem) hj { k.sem i with value := v }]
  · show List.Pairwise _ (Function.update k.sem i { k.sem i with value := v } j).suspendThread
    rw [hlist]
    by_cases hj : j = i
    · rw [hj, hnone]
      exact .nil
    · refine hw.order j ?_
      rwa [← Function.update_of_ne (f := k.sem) hj { k.sem i with value := v }]

/-- A thread that begins to sleep is in no list of a semaphore. -/
theorem Waits.sleep {th : Thread} (hw : Waits tail k) (hsem : ∀ j, k'.sem j = k.sem j)
    (hthread : k'.thread = Function.update k.thread t th) (hstat : (k.thread t).stat ≠ .suspend) :
    Waits (Function.update tail t (some .sleep)) k' := by
  have hother : ∀ u, u ≠ t → k'.thread u = k.thread u := fun u hu => by
    rw [hthread, Function.update_of_ne hu]
  refine ⟨fun u j => ?_, fun j => hsem j ▸ hw.nodup j, fun j => hsem j ▸ hw.empty j, fun u hs => ?_,
    fun u j hs htail => ?_, fun j hprio => ?_⟩
  · rw [hsem]
    by_cases hut : u = t
    · rw [hut, Function.update_self]
      exact iff_of_false (hw.not_mem hstat j) fun h => by simp at h
    · rw [hother u hut, Function.update_of_ne hut]
      exact hw.mem_iff u j
  · by_cases hut : u = t
    · rw [hut, Function.update_self]
      exact Option.some_ne_none _
    · rw [Function.update_of_ne hut]
      exact hw.pending u (hother u hut ▸ hs)
  · by_cases hut : u = t
    · rw [hut, Function.update_self] at htail
      simp at htail
    · rw [Function.update_of_ne hut] at htail
      rw [hother u hut] at hs ⊢
      exact hw.error u j hs htail
  · rw [hsem] at hprio ⊢
    refine (hw.order j hprio).imp_of_mem fun ha hb hle => ?_
    rwa [hother _ fun h => hw.not_mem hstat j (h ▸ ha), hother _ fun h =>
      hw.not_mem hstat j (h ▸ hb)]

/-- "find a suitable position" is an insertion behind the threads of the same or
a higher priority. -/
theorem insertByPriority_eq (k : Kernel) (t : Nat) (l : List Nat) :
    k.insertByPriority t l = insertLast (fun u => (k.thread u).currentPriority) t l := by
  induction l with
  | nil => rfl
  | cons u l ih => rw [insertByPriority, insertLast, ih]

/-- A thread that begins to wait for a semaphore goes into its list, where the
kind of the semaphore says. -/
theorem Waits.enqueue {th : Thread} {l : List Nat} (hw : Waits tail k)
    (hsem : k'.sem = Function.update k.sem i { k.sem i with suspendThread := l })
    (hthread : k'.thread = Function.update k.thread t th) (hold : (k.thread t).stat ≠ .suspend)
    (hstat : th.stat = .suspend) (herror : th.error = .ok) (hvalue : (k.sem i).value = 0)
    (hl : l.Perm (t :: (k.sem i).suspendThread))
    (hsorted : (k.sem i).flag = .prio → l.Pairwise fun t u =>
      (k'.thread t).currentPriority ≤ (k'.thread u).currentPriority) :
    Waits (Function.update tail t (some (.semTake i))) k' := by
  have hself : k'.thread t = th := by rw [hthread, Function.update_self]
  have hother : ∀ u, u ≠ t → k'.thread u = k.thread u := fun u hu => by
    rw [hthread, Function.update_of_ne hu]
  have hlist : (k'.sem i).suspendThread = l := by rw [hsem, Function.update_self]
  have hsemOther : ∀ j, j ≠ i → k'.sem j = k.sem j := fun j hj => by
    rw [hsem, Function.update_of_ne hj]
  have hnot := hw.not_mem hold
  -- in each part the semaphore and the thread of the take, and the others
  refine ⟨fun u j => ?_, fun j => ?_, fun j hne => ?_, fun u hs => ?_, fun u j hs htail => ?_,
    fun j hprio => ?_⟩
  · by_cases hj : j = i
    · rw [hj, hlist, hl.mem_iff, List.mem_cons]
      by_cases hut : u = t
      · rw [hut, hself, Function.update_self]
        exact iff_of_true (.inl rfl) ⟨hstat, rfl⟩
      · rw [or_iff_right hut, hother u hut, Function.update_of_ne hut]
        exact hw.mem_iff u i
    · rw [hsemOther j hj]
      by_cases hut : u = t
      · rw [hut, Function.update_self]
        refine iff_of_false (hnot j) fun h => hj ?_
        exact (Tail.semTake.inj (Option.some.inj h.2)).symm
      · rw [hother u hut, Function.update_of_ne hut]
        exact hw.mem_iff u j
  · by_cases hj : j = i
    · rw [hj, hlist]
      exact hl.nodup_iff.mpr (List.nodup_cons.mpr ⟨hnot i, hw.nodup i⟩)
    · rw [hsemOther j hj]
      exact hw.nodup j
  · by_cases hj : j = i
    · rw [hj, hsem, Function.update_self] at hne
      exact absurd hvalue hne
    · rw [hsemOther j hj] at hne ⊢
      exact hw.empty j hne
  · by_cases hut : u = t
    · rw [hut, Function.update_self]
      exact Option.some_ne_none _
    · rw [Function.update_of_ne hut]
      exact hw.pending u (hother u hut ▸ hs)
  · by_cases hut : u = t
    · rw [hut, hself]
      exact herror
    · rw [Function.update_of_ne hut] at htail
      rw [hother u hut] at hs ⊢
      exact hw.error u j hs htail
  · by_cases hj : j = i
    · rw [hj, hsem, Function.update_self] at hprio
      rw [hj, hlist]
      exact hsorted hprio
    · rw [hsemOther j hj] at hprio ⊢
      refine (hw.order j hprio).imp_of_mem fun ha hb hle => ?_
      rwa [hother _ fun h => hnot j (h ▸ ha), hother _ fun h => hnot j (h ▸ hb)]

/-! ## `rt_thread_sleep` and `rt_sem_take` -/

/-- What a function that suspends the current thread leaves as it is. -/
structure Keeps (k k' : Kernel) : Prop where
  tick : k'.tick = k.tick
  schedulerLockNest : k'.schedulerLockNest = k.schedulerLockNest
  currentThread : k'.currentThread = k.currentThread

/-- The current thread is suspended, with this timer and error number. -/
def blocked (th : Thread) (e : Err) (timer : Timer) : Thread :=
  { th with stat := .suspend, error := e, threadTimer := timer }

/-- `rt_thread_sleep` suspends the current thread, with its timer set to the
tick asked for. -/
theorem Timers.rtThreadSleep (ht : Timers k.tick k)
    (hready : (k.thread k.currentThread).stat = .ready)
    {tick : BitVec 32} (htick : tick < rtTickMax / 2) :
    Timers k.tick (k.rtThreadSleep tick) ∧ Keeps k (k.rtThreadSleep tick) ∧
      (k.rtThreadSleep tick).thread = Function.update k.thread k.currentThread
        (blocked (k.thread k.currentThread) (k.thread k.currentThread).error
          ⟨true, tick, k.tick + tick⟩) ∧
      ∀ i, (k.rtThreadSleep tick).sem i =
        { k.sem i with suspendThread := (k.sem i).suspendThread.erase k.currentThread } := by
  have hs := ht.rtThreadSuspend hready
  have hstart : Timers (k.rtThreadSuspend k.currentThread).tick (k.rtThreadSleep tick) := by
    refine Timers.startFor ?_ ?_ htick
    · rw [hs.tick]
      exact ht.suspends hs
    · rw [hs.thread, Function.update_self]
  refine ⟨hs.tick ▸ hstart, ⟨hs.tick, hs.schedulerLockNest, hs.currentThread⟩, ?_, hs.sem⟩
  rw [Kernel.rtThreadSleep, thread_startFor, hs.thread, Function.update_self, Function.update_idem,
    hs.tick]
  rfl

/-- `rt_thread_sleep` leaves the lists of the semaphores right. -/
theorem Waits.rtThreadSleep (hw : Waits tail k) (ht : Timers k.tick k)
    (hready : (k.thread k.currentThread).stat = .ready) {tick : BitVec 32}
    (htick : tick < rtTickMax / 2) :
    Waits (Function.update tail k.currentThread (some .sleep)) (k.rtThreadSleep tick) := by
  obtain ⟨-, -, hthread, hsem⟩ := ht.rtThreadSleep hready htick
  have hstat : (k.thread k.currentThread).stat ≠ .suspend := by
    rw [hready]
    decide
  exact hw.sleep (fun i => (hsem i).trans (hw.sem_erase hstat i)) hthread hstat

/-- `rt_ipc_list_suspend` puts the thread at the end of the list, or behind
those of its priority. -/
theorem rtIpcListSuspend_sem (k : Kernel) (i t : Nat) : ∃ l,
    (k.rtIpcListSuspend i t).sem = Function.update (k.rtThreadSuspend t).sem i
      { (k.rtThreadSuspend t).sem i with suspendThread := l } ∧
    l.Perm (t :: ((k.rtThreadSuspend t).sem i).suspendThread) ∧
    (((k.rtThreadSuspend t).sem i).flag = .prio → l = insertLast
      (fun u => ((k.rtThreadSuspend t).thread u).currentPriority) t
        ((k.rtThreadSuspend t).sem i).suspendThread) := by
  unfold rtIpcListSuspend
  refine ⟨_, rfl, ?_, fun hprio => ?_⟩
  · split
    · exact List.perm_append_singleton _ _
    · rw [insertByPriority_eq]
      exact perm_insertLast _ _ _
  · rw [hprio]
    exact insertByPriority_eq _ _ _

/-- A ready thread is put in the list of a semaphore. -/
theorem rtIpcListSuspend_spec (hw : Waits tail k) (ht : Timers k.tick k)
    (hready : (k.thread t).stat = .ready) (herror : (k.thread t).error = .ok)
    (hvalue : (k.sem i).value = 0) :
    Timers k.tick (k.rtIpcListSuspend i t) ∧ Keeps k (k.rtIpcListSuspend i t) ∧
      Waits (Function.update tail t (some (.semTake i))) (k.rtIpcListSuspend i t) ∧
      (k.rtIpcListSuspend i t).thread = Function.update k.thread t (blocked (k.thread t) .ok
        { (k.thread t).threadTimer with activated := false }) ∧
      ∀ j, ((k.rtIpcListSuspend i t).sem j).value = (k.sem j).value := by
  have hstat : (k.thread t).stat ≠ .suspend := by rw [hready]; decide
  have hs := ht.rtThreadSuspend hready
  have hsem1 : (k.rtThreadSuspend t).sem = k.sem :=
    funext fun j => (hs.sem j).trans (hw.sem_erase hstat j)
  obtain ⟨l, hl, hperm, hprio⟩ := rtIpcListSuspend_sem k i t
  rw [hsem1] at hl hperm hprio
  have hthread : (k.rtIpcListSuspend i t).thread = Function.update k.thread t
      (blocked (k.thread t) .ok { (k.thread t).threadTimer with activated := false }) := by
    show (k.rtThreadSuspend t).thread = _
    rw [hs.thread, blocked, ← herror]
  have hsorted : (k.sem i).flag = .prio → l.Pairwise fun u v =>
      ((k.rtIpcListSuspend i t).thread u).currentPriority ≤
        ((k.rtIpcListSuspend i t).thread v).currentPriority := by
    intro hflag
    rw [hprio hflag]
    refine pairwise_insertLast ((hw.order i hflag).imp_of_mem fun {a b} ha hb hle => ?_)
    have hne : ∀ u ∈ (k.sem i).suspendThread, u ≠ t := fun u hu hut => hw.not_mem hstat i (hut ▸ hu)
    rwa [hthread, Function.update_of_ne (hne a ha), Function.update_of_ne (hne b hb)]
  refine ⟨(ht.suspends hs).same (sameTimers (fun _ => rfl) rfl) (ht.suspends hs).suspended,
    ⟨hs.tick, hs.schedulerLockNest, hs.currentThread⟩,
    hw.enqueue hl hthread hstat rfl rfl hvalue hperm hsorted, hthread, fun j => ?_⟩
  by_cases hj : j = i
  · rw [hl, hj, Function.update_self]
  · rw [hl, Function.update_of_ne hj]

/-- Starting a timer does not change what waits. -/
theorem Waits.startFor (hw : Waits tail k) (t : Nat) (tick : BitVec 32) :
    Waits tail ((k.setTime t tick).rtTimerStart t) := by
  have hsame : ∀ u, (((k.setTime t tick).rtTimerStart t).thread u).stat = (k.thread u).stat ∧
      (((k.setTime t tick).rtTimerStart t).thread u).error = (k.thread u).error ∧
      (((k.setTime t tick).rtTimerStart t).thread u).currentPriority =
        (k.thread u).currentPriority := by
    intro u
    rw [thread_startFor]
    by_cases hut : u = t
    · rw [hut, Function.update_self]
      exact ⟨rfl, rfl, rfl⟩
    · rw [Function.update_of_ne hut]
      exact ⟨rfl, rfl, rfl⟩
  exact hw.same (fun _ => rfl) (fun u => by rw [(hsame u).1]) fun u _ =>
    ⟨(hsame u).2.1, (hsame u).2.2, rfl⟩

/-- "reset thread error number" changes nothing else in the thread. -/
theorem setError_same (k : Kernel) (t : Nat) (e : Err) (u : Nat) :
    ((k.setThread t { k.thread t with error := e }).thread u).stat = (k.thread u).stat ∧
      ((k.setThread t { k.thread t with error := e }).thread u).threadTimer =
        (k.thread u).threadTimer ∧
      (u ≠ t → (k.setThread t { k.thread t with error := e }).thread u = k.thread u) := by
  rw [thread_setThread]
  by_cases hut : u = t
  · rw [hut, Function.update_self]
    exact ⟨rfl, rfl, fun h => absurd rfl h⟩
  · rw [Function.update_of_ne hut]
    exact ⟨rfl, rfl, fun _ => rfl⟩

/-- Setting the error number of a thread that is not suspended does not change
what waits. -/
theorem Waits.setError (hw : Waits tail k) (hstat : (k.thread t).stat ≠ .suspend) (e : Err) :
    Waits tail (k.setThread t { k.thread t with error := e }) :=
  hw.same (fun _ => rfl) (fun u => by rw [(setError_same k t e u).1]) fun u hu => by
    rw [(setError_same k t e u).2.2 fun hut => hstat (hut ▸ hu)]
    exact ⟨rfl, rfl, rfl⟩

theorem Timers.setError (ht : Timers now k) (t : Nat) (e : Err) :
    Timers now (k.setThread t { k.thread t with error := e }) :=
  ht.same (sameTimers (fun u => (setError_same k t e u).2.1) rfl)
    fun u hactive => (setError_same k t e u).1.trans (ht.suspended u hactive)

/-- A take of a semaphore whose value is zero suspends the current thread, with
a timer when a time was asked for. -/
theorem rtSemTake_waits (hw : Waits tail k) (ht : Timers k.tick k)
    (hready : (k.thread k.currentThread).stat = .ready) {time : Int} (hvalue : (k.sem i).value = 0)
    (hzero : time ≠ 0) (htime : time < (rtTickMax / 2).toNat) :
    (k.rtSemTake i time).2 = .waits ∧ Timers k.tick (k.rtSemTake i time).1 ∧
      Keeps k (k.rtSemTake i time).1 ∧
      Waits (Function.update tail k.currentThread (some (.semTake i))) (k.rtSemTake i time).1 ∧
      (k.rtSemTake i time).1.thread = Function.update k.thread k.currentThread
        (blocked (k.thread k.currentThread) .ok (if time > 0 then
          ⟨true, BitVec.ofInt 32 time, k.tick + BitVec.ofInt 32 time⟩
        else { (k.thread k.currentThread).threadTimer with activated := false })) ∧
      ∀ j, ((k.rtSemTake i time).1.sem j).value = (k.sem j).value := by
  have hstat : (k.thread k.currentThread).stat ≠ .suspend := by rw [hready]; decide
  -- the kernel once the error of the thread is cleared
  obtain ⟨k0, hk0⟩ : ∃ k0, k0 = k.setThread k.currentThread
    { k.thread k.currentThread with error := .ok } := ⟨_, rfl⟩
  have hkeeps0 : Keeps k k0 := by rw [hk0]; exact ⟨rfl, rfl, rfl⟩
  have hthread0 : k0.thread = Function.update k.thread k.currentThread
      { k.thread k.currentThread with error := .ok } := by rw [hk0, thread_setThread]
  have hsem0 : k0.sem = k.sem := by rw [hk0]; rfl
  have ht0 : Timers k0.tick k0 := by
    rw [hkeeps0.tick, hk0]
    exact ht.setError _ _
  have hw0 : Waits tail k0 := hk0 ▸ hw.setError hstat .ok
  obtain ⟨ht1, hkeeps1, hw1, hthread1, hvalue1⟩ := rtIpcListSuspend_spec (i := i)
    (t := k.currentThread)
    hw0 ht0 (by rw [hthread0, Function.update_self]; exact hready)
    (by rw [hthread0, Function.update_self]) (by rw [hsem0, hvalue])
  have hkeeps : Keeps k (k0.rtIpcListSuspend i k.currentThread) :=
    ⟨hkeeps1.tick.trans hkeeps0.tick, hkeeps1.schedulerLockNest.trans hkeeps0.schedulerLockNest,
      hkeeps1.currentThread.trans hkeeps0.currentThread⟩
  rw [hthread0, Function.update_self, Function.update_idem] at hthread1
  rw [hsem0] at hvalue1
  rw [hkeeps0.tick] at ht1
  have htake : k.rtSemTake i time = (if time > 0 then
      ((k0.rtIpcListSuspend i k.currentThread).setTime k.currentThread
        (BitVec.ofInt 32 time)).rtTimerStart k.currentThread
      else k0.rtIpcListSuspend i k.currentThread, .waits) := by
    rw [rtSemTake, if_neg (not_not.mpr hvalue), if_neg hzero, hk0]
  rw [htake]
  by_cases hpos : time > 0
  · have hlt : BitVec.ofInt 32 time < rtTickMax / 2 := by
      rw [BitVec.lt_def, BitVec.toNat_ofInt]
      rw [half_eq] at htime ⊢
      omega
    have hstart := Timers.startFor (hkeeps.tick ▸ ht1)
      (t := k.currentThread) (by rw [hthread1, Function.update_self]; rfl) hlt
    simp only [if_pos hpos]
    refine ⟨trivial, hkeeps.tick ▸ hstart,
      ⟨hkeeps.tick, hkeeps.schedulerLockNest, hkeeps.currentThread⟩,
      hw1.startFor _ _, ?_, hvalue1⟩
    rw [thread_startFor, hthread1, Function.update_self, Function.update_idem, hkeeps.tick]
    rfl
  · simp only [if_neg hpos]
    exact ⟨trivial, ht1, hkeeps, hw1, hthread1, hvalue1⟩

end Kernel

end Ch583Kbd.Rtt
