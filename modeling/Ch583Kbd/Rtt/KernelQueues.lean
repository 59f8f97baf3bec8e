/-
Ch583Kbd.Rtt.KernelQueues — the ready lists.

`Queues k`: the list of a priority has the threads of that priority that are
ready, once each, and the bit of a priority says whether its list has any.
Every function of the kernel keeps this, and then `rt_schedule` switches to
the first thread of the highest priority there is (`Foremost`).
-/
import Mathlib.Data.List.Nodup
import Ch583Kbd.Rtt.Kernel

namespace Ch583Kbd.Rtt

/-! ## `__rt_ffs` -/

/-- `n` is the lowest bit that is set. -/
def LowestSet (g : BitVec 32) (n : Nat) : Prop :=
  g.getLsbD n = true ∧ ∀ j, j < n → g.getLsbD j = false

/-- The table has the lowest set bit of every byte but zero. -/
theorem lowestBitBitmap_spec : ∀ b < 256, 0 < b → lowestBitBitmap.getD b 0 < 8 ∧
    b.testBit (lowestBitBitmap.getD b 0) = true ∧
      ∀ j < lowestBitBitmap.getD b 0, b.testBit j = false := by
  decide +kernel

/-- A byte of the value, with nothing set below it. -/
theorem lowestSet_byte {g mask : BitVec 32} {s : Nat}
    (hmask : ∀ j < 32, mask.getLsbD j = decide (s ≤ j ∧ j < s + 8)) (hne : g &&& mask ≠ 0)
    (hlow : ∀ j, j < s → g.getLsbD j = false) :
    LowestSet g (lowestBit ((g &&& mask) >>> s) + s) := by
  have hbit : ∀ j, ((g &&& mask) >>> s).getLsbD j = (decide (j < 8) && g.getLsbD (s + j)) := by
    intro j
    rw [BitVec.getLsbD_ushiftRight, BitVec.getLsbD_and]
    by_cases hj : s + j < 32
    · rw [hmask _ hj, Bool.and_comm]
      congr 1
      exact decide_eq_decide.mpr (by omega)
    · rw [BitVec.getLsbD_of_ge g _ (by omega), Bool.false_and, Bool.and_false]
  have hlt : ((g &&& mask) >>> s).toNat < 256 := by
    refine Nat.lt_pow_two_of_testBit (n := 8) _ fun j hj => ?_
    rw [← BitVec.getLsbD, hbit, decide_eq_false (by omega), Bool.false_and]
  have hpos : 0 < ((g &&& mask) >>> s).toNat := by
    refine Nat.pos_of_ne_zero fun hzero => hne (BitVec.eq_of_getLsbD_eq fun j hj => ?_)
    show _ = (0#32).getLsbD j
    rw [BitVec.getLsbD_zero, BitVec.getLsbD_and, hmask j hj]
    by_cases hin : s ≤ j ∧ j < s + 8
    · have hclear := hbit (j - s)
      rw [BitVec.getLsbD, hzero, Nat.zero_testBit, decide_eq_true (by omega), Bool.true_and,
        Nat.add_sub_cancel' hin.1] at hclear
      rw [← hclear, Bool.false_and]
    · rw [decide_eq_false hin, Bool.and_false]
  obtain ⟨h8, hset, hclear⟩ := lowestBitBitmap_spec _ hlt hpos
  have hset' := hbit (lowestBit ((g &&& mask) >>> s))
  rw [decide_eq_true (show lowestBit _ < 8 from h8), Bool.true_and] at hset'
  refine ⟨?_, fun j hj => ?_⟩
  · rw [Nat.add_comm, ← hset']
    exact hset
  · by_cases hjs : j < s
    · exact hlow j hjs
    · have hj8 : j - s < lowestBit ((g &&& mask) >>> s) := by omega
      have hclear' := hbit (j - s)
      rw [decide_eq_true (Nat.lt_trans hj8 h8), Bool.true_and,
        Nat.add_sub_cancel' (Nat.not_lt.mp hjs)]
        at hclear'
      rw [← hclear']
      exact hclear _ hj8

/-- Where a mask finds nothing, none of its bits is set. -/
theorem clear_of_and_eq_zero {g mask : BitVec 32} (h : g &&& mask = 0) {j : Nat}
    (hmask : mask.getLsbD j = true) : g.getLsbD j = false := by
  have hbit := congrArg (BitVec.getLsbD · j) h
  simpa [hmask] using hbit

/-- `__rt_ffs` finds the lowest set bit, counted from one. -/
theorem rtFfs_spec (g : BitVec 32) (hg : g ≠ 0) : LowestSet g (rtFfs g - 1) := by
  have mask0 : ∀ j < 32, (0xff : BitVec 32).getLsbD j = decide (0 ≤ j ∧ j < 0 + 8) := by decide
  have mask8 : ∀ j < 32, (0xff00 : BitVec 32).getLsbD j = decide (8 ≤ j ∧ j < 8 + 8) := by decide
  have mask16 : ∀ j < 32, (0xff0000 : BitVec 32).getLsbD j =
    decide (16 ≤ j ∧ j < 16 + 8) := by decide
  have mask24 : ∀ j < 32, (0xff000000 : BitVec 32).getLsbD j =
    decide (24 ≤ j ∧ j < 24 + 8) := by decide
  rw [rtFfs, if_neg hg]
  split
  · next hne => simpa using lowestSet_byte mask0 hne nofun
  next h0 =>
  have low8 : ∀ j, j < 8 → g.getLsbD j = false := fun j hj =>
    clear_of_and_eq_zero (not_not.mp h0) (by rw [mask0 j (by omega), decide_eq_true (by omega)])
  split
  · next hne => exact lowestSet_byte mask8 hne low8
  next h8 =>
  have low16 : ∀ j, j < 16 → g.getLsbD j = false := fun j hj => by
    by_cases hj8 : j < 8
    · exact low8 j hj8
    · exact clear_of_and_eq_zero (not_not.mp h8)
        (by rw [mask8 j (by omega), decide_eq_true (by omega)])
  split
  · next hne => exact lowestSet_byte mask16 hne low16
  next h16 =>
  have low24 : ∀ j, j < 24 → g.getLsbD j = false := fun j hj => by
    by_cases hj16 : j < 16
    · exact low16 j hj16
    · exact clear_of_and_eq_zero (not_not.mp h16)
        (by rw [mask16 j (by omega), decide_eq_true (by omega)])
  refine lowestSet_byte mask24 (fun hzero => hg ?_) low24
  refine BitVec.eq_of_getLsbD_eq fun j hj => ?_
  show _ = (0#32).getLsbD j
  rw [BitVec.getLsbD_zero]
  by_cases hj24 : j < 24
  · exact low24 j hj24
  · exact clear_of_and_eq_zero hzero (by rw [mask24 j hj, decide_eq_true (by omega)])

namespace Kernel

variable {k k' : Kernel} {t u : Nat}

/-! ## The ready lists -/

/-- The list of a priority has the ready threads of that priority, once each,
and the group has a bit for each list that is not empty. -/
structure Queues (k : Kernel) : Prop where
  mem_iff : ∀ t p, t ∈ k.priorityTable p ↔
    (k.thread t).stat = .ready ∧ (k.thread t).currentPriority = p
  nodup : ∀ p, (k.priorityTable p).Nodup
  initPriority : ∀ t, (k.thread t).initPriority < rtThreadPriorityMax
  priority : ∀ t, (k.thread t).currentPriority < rtThreadPriorityMax
  mask : ∀ t, (k.thread t).stat ≠ .init →
    (k.thread t).numberMask = 1#32 <<< (k.thread t).currentPriority
  group : ∀ p, p < 32 → (k.readyPriorityGroup.getLsbD p = true ↔ k.priorityTable p ≠ [])

/-- The scheduler does not see a difference between the threads. -/
structure SameSched (th th' : Thread) : Prop where
  stat : th'.stat = th.stat
  initPriority : th'.initPriority = th.initPriority
  currentPriority : th'.currentPriority = th.currentPriority
  numberMask : th'.numberMask = th.numberMask

theorem SameSched.refl (th : Thread) : SameSched th th := ⟨rfl, rfl, rfl, rfl⟩

/-- The scheduler does not see a difference. -/
structure Unseen (k k' : Kernel) : Prop where
  thread : ∀ t, SameSched (k.thread t) (k'.thread t)
  priorityTable : k'.priorityTable = k.priorityTable
  readyPriorityGroup : k'.readyPriorityGroup = k.readyPriorityGroup

/-- The ready lists stay right when the scheduler sees no difference. -/
theorem Queues.unseen (hq : Queues k) (h : Unseen k k') : Queues k' where
  mem_iff t p := by
    rw [h.priorityTable, (h.thread t).stat, (h.thread t).currentPriority]
    exact hq.mem_iff t p
  nodup p := h.priorityTable ▸ hq.nodup p
  initPriority t := (h.thread t).initPriority ▸ hq.initPriority t
  priority t := (h.thread t).currentPriority ▸ hq.priority t
  mask t hinit := by
    rw [(h.thread t).numberMask, (h.thread t).currentPriority]
    exact hq.mask t ((h.thread t).stat ▸ hinit)
  group p hp := by
    rw [h.readyPriorityGroup, h.priorityTable]
    exact hq.group p hp

@[simp] theorem thread_setThread (k : Kernel) (t : Nat) (th : Thread) :
    (k.setThread t th).thread = Function.update k.thread t th := rfl

/-- Changing what the scheduler does not look at in a thread is not seen. -/
theorem unseen_setThread {th : Thread} (h : SameSched (k.thread t) th) :
    Unseen k (k.setThread t th) where
  thread u := by
    by_cases hu : u = t
    · subst hu
      rwa [thread_setThread, Function.update_self]
    · rw [thread_setThread, Function.update_of_ne hu]
      exact .refl _
  priorityTable := rfl
  readyPriorityGroup := rfl

@[simp] theorem priorityTable_removeTlist (k : Kernel) (t p : Nat) :
    (k.removeTlist t).priorityTable p = (k.priorityTable p).erase t := rfl

/-- A thread that is in no ready list has another record. -/
theorem Queues.setThread (hq : Queues k) {th : Thread} (hold : (k.thread t).stat ≠ .ready)
    (hnew : th.stat ≠ .ready) (hinit : th.initPriority < rtThreadPriorityMax)
    (hprio : th.currentPriority < rtThreadPriorityMax)
    (hmask : th.stat ≠ .init → th.numberMask = 1#32 <<< th.currentPriority) :
    Queues (k.setThread t th) where
  mem_iff u p := by
    by_cases hu : u = t
    · subst hu
      rw [thread_setThread, Function.update_self]
      exact iff_of_false (fun hmem => hold ((hq.mem_iff u p).mp hmem).1) fun h => hnew h.1
    · rw [thread_setThread, Function.update_of_ne hu]
      exact hq.mem_iff u p
  nodup := hq.nodup
  initPriority u := by
    by_cases hu : u = t
    · subst hu
      rwa [thread_setThread, Function.update_self]
    · rw [thread_setThread, Function.update_of_ne hu]
      exact hq.initPriority u
  priority u := by
    by_cases hu : u = t
    · subst hu
      rwa [thread_setThread, Function.update_self]
    · rw [thread_setThread, Function.update_of_ne hu]
      exact hq.priority u
  mask u := by
    by_cases hu : u = t
    · subst hu
      rwa [thread_setThread, Function.update_self]
    · rw [thread_setThread, Function.update_of_ne hu]
      exact hq.mask u
  group := hq.group

/-- The number mask of a priority has its own bit only. -/
theorem getLsbD_mask {n p : Nat} (hn : n < 32) : (1#32 <<< n).getLsbD p = decide (n = p) := by
  rw [← BitVec.twoPow_eq, BitVec.getLsbD_twoPow, decide_eq_true hn, Bool.true_and]

theorem lt_32 (hq : Queues k) (t : Nat) : (k.thread t).currentPriority < 32 :=
  Nat.lt_trans (hq.priority t) (by decide)

/-- A thread that becomes ready goes to the end of its list, and the bit of its
list is set. -/
theorem Queues.insert (hq : Queues k) (hstat : (k.thread t).stat ≠ .ready)
    (hmask : (k.thread t).numberMask = 1#32 <<< (k.thread t).currentPriority) :
    Queues (k.rtScheduleInsertThread t) := by
  have hnot : ∀ p, t ∉ k.priorityTable p := fun p hmem => hstat ((hq.mem_iff t p).mp hmem).1
  have hself : (k.rtScheduleInsertThread t).thread t = { k.thread t with stat := .ready } :=
    Function.update_self ..
  have hother : ∀ u, u ≠ t → (k.rtScheduleInsertThread t).thread u = k.thread u :=
    fun u hu => Function.update_of_ne hu _ _
  have htable : (k.rtScheduleInsertThread t).priorityTable = Function.update k.priorityTable
      (k.thread t).currentPriority (k.priorityTable (k.thread t).currentPriority ++ [t]) := by
    simp [rtScheduleInsertThread, Kernel.setThread]
  have hgroup : (k.rtScheduleInsertThread t).readyPriorityGroup =
      k.readyPriorityGroup ||| (k.thread t).numberMask := by
    simp [rtScheduleInsertThread, Kernel.setThread]
  -- the lists have the ready threads and none twice, a thread keeps its own data,
  -- and the word has a bit for each list that is not empty
  refine ⟨fun u p => ?_, fun p => ?_, fun u => ?_, fun u => ?_, fun u => ?_, fun p hp => ?_⟩
  · rw [htable]
    by_cases hp : p = (k.thread t).currentPriority
    · subst hp
      rw [Function.update_self, List.mem_append, List.mem_singleton]
      by_cases hu : u = t
      · subst hu
        rw [hself]
        exact iff_of_true (.inr rfl) ⟨rfl, rfl⟩
      · rw [hother u hu, or_iff_left hu]
        exact hq.mem_iff u _
    · rw [Function.update_of_ne hp]
      by_cases hu : u = t
      · subst hu
        rw [hself]
        exact iff_of_false (hnot p) fun h => hp h.2.symm
      · rw [hother u hu]
        exact hq.mem_iff u p
  · rw [htable]
    by_cases hp : p = (k.thread t).currentPriority
    · rw [hp, Function.update_self]
      refine List.nodup_append.mpr ⟨hq.nodup _, List.nodup_singleton t, fun a ha b hb hab => ?_⟩
      rw [hab, List.mem_singleton.mp hb] at ha
      exact hnot _ ha
    · rw [Function.update_of_ne hp]
      exact hq.nodup p
  · by_cases hu : u = t
    · rw [hu, hself]
      exact hq.initPriority t
    · rw [hother u hu]
      exact hq.initPriority u
  · by_cases hu : u = t
    · rw [hu, hself]
      exact hq.priority t
    · rw [hother u hu]
      exact hq.priority u
  · by_cases hu : u = t
    · rw [hu, hself]
      exact fun _ => hmask
    · rw [hother u hu]
      exact hq.mask u
  · rw [hgroup, htable, BitVec.getLsbD_or, hmask, getLsbD_mask (lt_32 hq t), Bool.or_eq_true,
      decide_eq_true_iff]
    by_cases hpt : p = (k.thread t).currentPriority
    · rw [hpt, Function.update_self]
      exact iff_of_true (.inr rfl) (by simp)
    · rw [Function.update_of_ne hpt, or_iff_left (Ne.symm hpt)]
      exact hq.group p hp

@[simp] theorem thread_rtScheduleRemoveThread (k : Kernel) (t : Nat) :
    (k.rtScheduleRemoveThread t).thread = k.thread := by
  unfold rtScheduleRemoveThread
  dsimp only
  split <;> rfl

/-- A thread that is no longer ready leaves its list, and the bit of a list that
is empty then is cleared. -/
theorem Queues.remove (hq : Queues k) (hready : (k.thread t).stat = .ready) {th : Thread}
    (hth : th.stat ≠ .ready) (hinit : th.initPriority = (k.thread t).initPriority)
    (hprio : th.currentPriority = (k.thread t).currentPriority)
    (hmask : th.numberMask = (k.thread t).numberMask) :
    Queues ((k.rtScheduleRemoveThread t).setThread t th) := by
  have htable : (k.rtScheduleRemoveThread t).priorityTable = fun p =>
      (k.priorityTable p).erase t := by
    unfold rtScheduleRemoveThread
    dsimp only
    split <;> rfl
  have hself : ((k.rtScheduleRemoveThread t).setThread t th).thread t = th :=
    Function.update_self ..
  have hother : ∀ u, u ≠ t → ((k.rtScheduleRemoveThread t).setThread t th).thread u =
      k.thread u := by
    intro u hu
    rw [thread_setThread, Function.update_of_ne hu, thread_rtScheduleRemoveThread]
  have hmem : t ∈ k.priorityTable (k.thread t).currentPriority := (hq.mem_iff t _).mpr ⟨hready, rfl⟩
  have herase : ∀ p, p ≠ (k.thread t).currentPriority → (k.priorityTable p).erase t =
    k.priorityTable p :=
    fun p hp => List.erase_of_not_mem fun hin => hp ((hq.mem_iff t p).mp hin).2.symm
  refine ⟨fun u p => ?_, fun p => ?_, fun u => ?_, fun u => ?_, fun u => ?_, fun p hp => ?_⟩
  · show u ∈ (k.rtScheduleRemoveThread t).priorityTable p ↔ _
    rw [htable, (hq.nodup p).mem_erase_iff]
    by_cases hu : u = t
    · rw [hu, hself]
      exact iff_of_false (fun h => h.1 rfl) fun h => hth h.1
    · rw [hother u hu, and_iff_right hu]
      exact hq.mem_iff u p
  · show ((k.rtScheduleRemoveThread t).priorityTable p).Nodup
    rw [htable]
    exact (hq.nodup p).erase t
  · by_cases hu : u = t
    · rw [hu, hself, hinit]
      exact hq.initPriority t
    · rw [hother u hu]
      exact hq.initPriority u
  · by_cases hu : u = t
    · rw [hu, hself, hprio]
      exact hq.priority t
    · rw [hother u hu]
      exact hq.priority u
  · by_cases hu : u = t
    · rw [hu, hself, hprio, hmask]
      intro _
      exact hq.mask t (by rw [hready]; decide)
    · rw [hother u hu]
      exact hq.mask u
  · show (k.rtScheduleRemoveThread t).readyPriorityGroup.getLsbD p = true ↔
      (k.rtScheduleRemoveThread t).priorityTable p ≠ []
    have hold := hq.group p hp
    have hbit := hq.mask t (by rw [hready]; decide)
    rw [htable]
    by_cases hpt : p = (k.thread t).currentPriority
    · -- the bit of the list that the thread was in
      have hset : k.readyPriorityGroup.getLsbD p = true :=
        hold.mpr (List.ne_nil_of_mem (hpt ▸ hmem))
      subst hpt
      unfold rtScheduleRemoveThread
      dsimp only
      split
      · next hempty =>
        refine iff_of_false ?_ (not_not.mpr hempty)
        show (k.readyPriorityGroup &&& ~~~(k.thread t).numberMask).getLsbD _ ≠ true
        rw [BitVec.getLsbD_and, BitVec.getLsbD_not, hbit, getLsbD_mask (lt_32 hq t)]
        simp
      · next hne => exact iff_of_true hset hne
    · -- the bits of the other lists
      have hsame : (k.rtScheduleRemoveThread t).readyPriorityGroup.getLsbD p =
          k.readyPriorityGroup.getLsbD p := by
        unfold rtScheduleRemoveThread
        dsimp only
        split
        · show (k.readyPriorityGroup &&& ~~~(k.thread t).numberMask).getLsbD p = _
          rw [BitVec.getLsbD_and, BitVec.getLsbD_not, hbit, getLsbD_mask (lt_32 hq t),
            decide_eq_false (Ne.symm hpt), decide_eq_true hp, Bool.not_false, Bool.and_true,
            Bool.and_true]
        · rfl
      rw [hsame]
      show _ ↔ (k.priorityTable p).erase t ≠ []
      rwa [herase p hpt]

/-! ## `rt_schedule` -/

/-- The thread is the first one of the highest priority that is ready. -/
structure Foremost (k : Kernel) (t : Nat) : Prop where
  first : (k.priorityTable (k.thread t).currentPriority).head? = some t
  highest : ∀ u, (k.thread u).stat = .ready →
    (k.thread t).currentPriority ≤ (k.thread u).currentPriority

/-- The first thread of a list is ready, with the priority of the list. -/
theorem Queues.ready_of_first (hq : Queues k) {p : Nat} (h : (k.priorityTable p).head? = some t) :
    (k.thread t).stat = .ready ∧ (k.thread t).currentPriority = p :=
  (hq.mem_iff t p).mp (List.mem_of_head? h)

/-- The foremost thread is ready. -/
theorem Queues.ready_of_foremost (hq : Queues k) (hf : Foremost k t) : (k.thread t).stat = .ready :=
  (hq.ready_of_first hf.first).1

/-- **`rt_schedule` switches to the foremost thread**, when the lock is free and
some thread is ready. -/
theorem Queues.schedule (hq : Queues k) (hlock : k.schedulerLockNest = 0)
    (hready : (k.thread t).stat = .ready) :
    ∃ c, k.rtSchedule = { k with currentThread := c } ∧ Foremost k c := by
  have hbit : ∀ u, (k.thread u).stat = .ready →
      k.readyPriorityGroup.getLsbD (k.thread u).currentPriority = true := by
    intro u hu
    exact (hq.group _ (lt_32 hq u)).mpr (List.ne_nil_of_mem ((hq.mem_iff u _).mpr ⟨hu, rfl⟩))
  have hgroup : k.readyPriorityGroup ≠ 0 := by
    intro hzero
    have hset := hbit t hready
    rw [hzero, show (0 : BitVec 32) = 0#32 from rfl, BitVec.getLsbD_zero] at hset
    exact Bool.false_ne_true hset
  obtain ⟨hset, hclear⟩ := rtFfs_spec _ hgroup
  have hlt : rtFfs k.readyPriorityGroup - 1 < 32 := BitVec.lt_of_getLsbD hset
  obtain ⟨c, rest, hlist⟩ := List.exists_cons_of_ne_nil ((hq.group _ hlt).mp hset)
  have hfirst : (k.priorityTable (rtFfs k.readyPriorityGroup - 1)).head? = some c := by
    rw [hlist]; rfl
  refine ⟨c, ?_, ?_, fun u hu => ?_⟩
  · rw [rtSchedule, if_pos hlock, hfirst]
  · rw [(hq.ready_of_first hfirst).2, hfirst]
  · rw [(hq.ready_of_first hfirst).2]
    by_contra hgt
    have hbelow := hclear _ (Nat.not_le.mp hgt)
    rw [hbit u hu] at hbelow
    exact Bool.false_ne_true hbelow.symm

/-- Whatever it does, it is to the current thread only. -/
theorem rtSchedule_eq (k : Kernel) : ∃ c, k.rtSchedule = { k with currentThread := c } := by
  unfold rtSchedule
  split
  · split
    · exact ⟨k.currentThread, rfl⟩
    · exact ⟨_, rfl⟩
  · exact ⟨k.currentThread, rfl⟩

/-- `rt_schedule` changes the current thread only. -/
theorem unseen_rtSchedule (k : Kernel) : Unseen k k.rtSchedule := by
  obtain ⟨c, hc⟩ := rtSchedule_eq k
  rw [hc]
  exact ⟨fun _ => .refl _, rfl, rfl⟩

/-! ## Timers -/

theorem Unseen.refl (k : Kernel) : Unseen k k := ⟨fun _ => .refl _, rfl, rfl⟩

theorem SameSched.trans {a b c : Thread} (h : SameSched a b) (h' : SameSched b c) : SameSched a c :=
  ⟨h'.stat.trans h.stat, h'.initPriority.trans h.initPriority,
    h'.currentPriority.trans h.currentPriority, h'.numberMask.trans h.numberMask⟩

theorem Unseen.trans {k'' : Kernel} (h : Unseen k k') (h' : Unseen k' k'') : Unseen k k'' :=
  ⟨fun t => (h.thread t).trans (h'.thread t), h'.priorityTable.trans h.priorityTable,
    h'.readyPriorityGroup.trans h.readyPriorityGroup⟩

theorem unseen_rtTimerRemove (k : Kernel) (t : Nat) : Unseen k (k.rtTimerRemove t) :=
  ⟨fun _ => .refl _, rfl, rfl⟩

theorem unseen_setTimer (k : Kernel) (t : Nat) (timer : Timer) : Unseen k (k.setTimer t timer) :=
  unseen_setThread ⟨rfl, rfl, rfl, rfl⟩

theorem unseen_rtTimerStop (k : Kernel) (t : Nat) : Unseen k (k.rtTimerStop t) := by
  unfold rtTimerStop
  split
  · exact (unseen_rtTimerRemove k t).trans (unseen_setTimer _ t _)
  · exact .refl k

/-- Starting a timer is not seen by the scheduler. -/
theorem unseen_rtTimerStart (k : Kernel) (t : Nat) : Unseen k (k.rtTimerStart t) := by
  unfold rtTimerStart
  refine Unseen.trans ?_ (unseen_setTimer _ t _)
  exact ⟨(unseen_setTimer (k.rtTimerRemove t) t _).thread, rfl, rfl⟩

/-! ## The functions -/

/-- A thread that was suspended goes to the end of its list. -/
theorem Queues.wake (hq : Queues k) (hsuspend : (k.thread t).stat = .suspend) :
    Queues (k.rtScheduleInsertThread t) :=
  hq.insert (by rw [hsuspend]; decide) (hq.mask t (by rw [hsuspend]; decide))

/-- A thread that is not ready is in no ready list. -/
theorem Queues.removeTlist (hq : Queues k) (hstat : (k.thread t).stat ≠ .ready) :
    Queues (k.removeTlist t) := by
  refine hq.unseen ⟨fun _ => .refl _, funext fun p => ?_, rfl⟩
  exact List.erase_of_not_mem fun hmem => hstat ((hq.mem_iff t p).mp hmem).1

/-- Suspending a thread keeps the ready lists right. -/
theorem Queues.rtThreadSuspend (hq : Queues k) (t : Nat) : Queues (k.rtThreadSuspend t) := by
  unfold Kernel.rtThreadSuspend
  split
  · exact hq
  · next hready =>
    have hready := not_not.mp hready
    have hremoved : Queues ((k.rtScheduleRemoveThread t).setThread t
        { (k.rtScheduleRemoveThread t).thread t with stat := .suspend }) := by
      rw [thread_rtScheduleRemoveThread]
      exact hq.remove hready nofun rfl rfl rfl
    exact hremoved.unseen (unseen_rtTimerStop _ t)

/-- Resuming a thread keeps the ready lists right. -/
theorem Queues.rtThreadResume (hq : Queues k) (t : Nat) : Queues (k.rtThreadResume t) := by
  unfold Kernel.rtThreadResume
  split
  · exact hq
  · next hsuspend =>
    have hsuspend := not_not.mp hsuspend
    have hstop := (unseen_rtTimerStop (k.removeTlist t) t).thread t
    exact ((hq.removeTlist (by rw [hsuspend]; decide)).unseen (unseen_rtTimerStop _ t)).wake
      (hstop.stat.trans hsuspend)

/-- Starting a thread sets its mask and puts it into its list. -/
theorem Queues.rtThreadStartup (hq : Queues k) (hinit : (k.thread t).stat = .init) :
    Queues (k.rtThreadStartup t) := by
  have hset : Queues (k.setThread t { k.thread t with
      currentPriority := (k.thread t).initPriority
      numberMask := 1 <<< (k.thread t).initPriority
      stat := .suspend }) :=
    hq.setThread (by rw [hinit]; decide) nofun (hq.initPriority t) (hq.initPriority t) fun _ => rfl
  exact hset.rtThreadResume t

/-- A timed-out thread goes to the end of its list. -/
theorem Queues.rtThreadTimeout (hq : Queues k) (hsuspend : (k.thread t).stat = .suspend) :
    Queues (k.rtThreadTimeout t) := by
  have herror : Queues (k.setThread t { k.thread t with error := .timeout }) :=
    hq.unseen (unseen_setThread ⟨rfl, rfl, rfl, rfl⟩)
  have hstat : ((k.setThread t { k.thread t with error := .timeout }).thread t).stat =
      .suspend := by
    rw [thread_setThread, Function.update_self]
    exact hsuspend
  exact ((herror.removeTlist (by rw [hstat]; decide)).wake hstat).unseen (unseen_rtSchedule _)

/-- A timer that fires makes its thread ready. -/
theorem Queues.fireTimer (hq : Queues k) (hsuspend : (k.thread t).stat = .suspend) :
    Queues (k.fireTimer t) := by
  have hstop := (unseen_rtTimerRemove k t).trans
    (unseen_setTimer (k.rtTimerRemove t) t { (k.thread t).threadTimer with activated := false })
  exact (hq.unseen hstop).rtThreadTimeout ((hstop.thread t).stat.trans hsuspend)

/-- The exit of a thread takes it out of its list. -/
theorem Queues.rtThreadExit (hq : Queues k) (hready : (k.thread k.currentThread).stat = .ready) :
    Queues k.rtThreadExit := by
  have hremoved : Queues ((k.rtScheduleRemoveThread k.currentThread).setThread k.currentThread
      { (k.rtScheduleRemoveThread k.currentThread).thread k.currentThread
        with stat := .close }) := by
    rw [thread_rtScheduleRemoveThread]
    exact hq.remove hready nofun rfl rfl rfl
  exact ((hremoved.unseen (unseen_rtTimerRemove _ _)).unseen (unseen_setTimer _ _ _)).unseen
    (unseen_rtSchedule _)

/-- A yield moves the thread to the end of its list. -/
theorem Queues.rtThreadYield (hq : Queues k) : Queues k.rtThreadYield.1 := by
  unfold Kernel.rtThreadYield
  dsimp only
  split
  · next hcond =>
    have hmem : k.currentThread ∈ k.priorityTable (k.thread k.currentThread).currentPriority :=
      (hq.mem_iff _ _).mpr ⟨hcond.1, rfl⟩
    have herase : ∀ p, p ≠ (k.thread k.currentThread).currentPriority →
        (k.priorityTable p).erase k.currentThread = k.priorityTable p :=
      fun p hp => List.erase_of_not_mem fun hin => hp ((hq.mem_iff _ p).mp hin).2.symm
    refine ⟨fun u p => ?_, fun p => ?_, hq.initPriority, hq.priority, hq.mask, fun p hp => ?_⟩
    · refine Iff.trans ?_ (hq.mem_iff u p)
      by_cases hp : p = (k.thread k.currentThread).currentPriority
      · subst hp
        simp only [priorityTable_removeTlist, Function.update_self, List.mem_append,
          List.mem_singleton,
          (hq.nodup _).mem_erase_iff]
        by_cases hu : u = k.currentThread
        · rw [hu]
          exact iff_of_true (.inr rfl) hmem
        · rw [and_iff_right hu, or_iff_left hu]
      · simp only [priorityTable_removeTlist, Function.update_of_ne hp, herase p hp]
    · by_cases hp : p = (k.thread k.currentThread).currentPriority
      · subst hp
        simp only [priorityTable_removeTlist, Function.update_self]
        refine List.nodup_append.mpr ⟨(hq.nodup _).erase _, List.nodup_singleton _,
          fun a ha b hb hab => ?_⟩
        rw [hab, List.mem_singleton.mp hb, (hq.nodup _).mem_erase_iff] at ha
        exact ha.1 rfl
      · simp only [priorityTable_removeTlist, Function.update_of_ne hp, herase p hp]
        exact hq.nodup p
    · refine (hq.group p hp).trans ?_
      by_cases hpc : p = (k.thread k.currentThread).currentPriority
      · subst hpc
        simp only [priorityTable_removeTlist, Function.update_self]
        exact iff_of_true (List.ne_nil_of_mem hmem) (by simp)
      · simp only [priorityTable_removeTlist, Function.update_of_ne hpc, herase p hpc]
  · exact hq

/-- A sleep takes the current thread out of its list. -/
theorem Queues.rtThreadSleep (hq : Queues k) (tick : BitVec 32) : Queues (k.rtThreadSleep tick) :=
  ((hq.rtThreadSuspend _).unseen (unseen_setTimer _ _ _)).unseen (unseen_rtTimerStart _ _)

/-! ## Semaphores -/

theorem unseen_sem (k : Kernel) (sem : Nat → Semaphore) : Unseen k { k with sem := sem } :=
  ⟨fun _ => .refl _, rfl, rfl⟩

/-- A take leaves the ready lists right, whether it returns or waits. -/
theorem Queues.rtSemTake (hq : Queues k) (i : Nat) (time : Int) :
    Queues (k.rtSemTake i time).1 := by
  unfold Kernel.rtSemTake
  dsimp only
  split
  · exact hq.unseen (unseen_sem _ _)
  · split
    · exact hq
    · have herror : Queues
        (k.setThread k.currentThread { k.thread k.currentThread with error := .ok }) :=
        hq.unseen (unseen_setThread ⟨rfl, rfl, rfl, rfl⟩)
      have hsuspend := (herror.rtThreadSuspend k.currentThread).unseen (unseen_sem _
        (Kernel.rtIpcListSuspend (k.setThread k.currentThread
          { k.thread k.currentThread with error := .ok }) i k.currentThread).sem)
      split
      · exact (hsuspend.unseen (unseen_setTimer _ _ _)).unseen (unseen_rtTimerStart _ _)
      · exact hsuspend

end Kernel

end Ch583Kbd.Rtt
