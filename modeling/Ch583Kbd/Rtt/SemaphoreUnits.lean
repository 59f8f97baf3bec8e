/-
Ch583Kbd.Rtt.SemaphoreUnits — what has been released and not been taken.

A release gives its unit to the first thread that waits, or to the value of
the semaphore. A thread that was picked takes its unit when it goes on, which
may be much later. `Units s i n` counts the units that there are: no step
loses one and none makes one (`Units.step`), so none is taken twice.
-/
import Ch583Kbd.Rtt.KernelTheorems

namespace Ch583Kbd.Rtt

open Kernel

variable {s s' : Tasks} {k : Kernel} {a : Act} {idle t u i : Nat} {thread : Nat → Thread}
  {sem : Nat → Semaphore} {threads : List Nat} {as : List Act} {es : List Event}

/-! ## The units of a semaphore -/

def Event.releases (i : Nat) : Event → Bool
  | .released j => j == i
  | _ => false

def Event.takes (i : Nat) : Event → Bool
  | .taken _ j => j == i
  | _ => false

/-- A release has picked the thread, and it has not gone on yet. -/
structure Granted (s : Tasks) (i t : Nat) : Prop where
  tail : s.tail t = some (.semTake i)
  stat : (s.kernel.thread t).stat ≠ .suspend
  error : (s.kernel.thread t).error = .ok

/-- There are `n` units of the semaphore: its value counts some of them, and
threads that were picked have the others. -/
def Units (s : Tasks) (i n : Nat) : Prop :=
  ∃ granted : List Nat, granted.Nodup ∧ (∀ t, t ∈ granted ↔ Granted s i t) ∧
    n = (s.kernel.sem i).value.toNat + granted.length

/-- Where no thread was picked and the value is the same, so are the units. -/
theorem Units.same {n : Nat} (h : Units s i n) (hgranted : ∀ t, Granted s' i t ↔ Granted s i t)
    (hvalue : (s'.kernel.sem i).value = (s.kernel.sem i).value) : Units s' i n := by
  obtain ⟨granted, hnodup, hiff, hn⟩ := h
  exact ⟨granted, hnodup, fun t => (hiff t).trans (hgranted t).symm, by rw [hvalue, hn]⟩

/-- A release that picks a thread adds one unit, which that thread has. -/
theorem Units.pick {n : Nat} (h : Units s i n) (hold : ¬ Granted s i t) (hnew : Granted s' i t)
    (hothers : ∀ u, u ≠ t → (Granted s' i u ↔ Granted s i u))
    (hvalue : (s'.kernel.sem i).value = (s.kernel.sem i).value) : Units s' i (n + 1) := by
  obtain ⟨granted, hnodup, hiff, hn⟩ := h
  refine ⟨t :: granted, List.nodup_cons.mpr ⟨fun hmem => hold ((hiff t).mp hmem), hnodup⟩,
    fun u => ?_, ?_⟩
  · rw [List.mem_cons]
    by_cases hut : u = t
    · rw [hut]
      exact iff_of_true (.inl rfl) hnew
    · rw [or_iff_right hut, hothers u hut]
      exact hiff u
  · rw [hvalue, List.length_cons, hn, Nat.add_assoc]

/-- A thread that was picked and goes on has one unit fewer outstanding. -/
theorem Units.collect {n : Nat} (h : Units s i n) (hold : Granted s i t) (hnew : ¬ Granted s' i t)
    (hothers : ∀ u, u ≠ t → (Granted s' i u ↔ Granted s i u))
    (hvalue : (s'.kernel.sem i).value = (s.kernel.sem i).value) : ∃ m, Units s' i m ∧
      n = m + 1 := by
  obtain ⟨granted, hnodup, hiff, hn⟩ := h
  have hmem := (hiff t).mpr hold
  have hlen := List.length_erase_of_mem hmem
  have hpos := List.length_pos_of_mem hmem
  refine ⟨(s'.kernel.sem i).value.toNat + (granted.erase t).length,
    ⟨granted.erase t, hnodup.erase t, fun u => ?_, rfl⟩, ?_⟩
  · rw [hnodup.mem_erase_iff]
    by_cases hut : u = t
    · rw [hut]
      exact iff_of_false (fun hne => hne.1 rfl) hnew
    · rw [and_iff_right hut, hothers u hut]
      exact hiff u
  · rw [hvalue]
    omega

/-- Whether a thread was picked depends on its state, its error number and what
it has before it. -/
theorem Granted.congr (htail : s'.tail t = s.tail t)
    (hstat : (s'.kernel.thread t).stat = .suspend ↔ (s.kernel.thread t).stat = .suspend)
    (herror : (s'.kernel.thread t).error = (s.kernel.thread t).error) :
    Granted s' i t ↔ Granted s i t :=
  ⟨fun h => ⟨htail ▸ h.tail, fun hs => h.stat (hstat.mpr hs), herror ▸ h.error⟩,
    fun h => ⟨htail ▸ h.tail, fun hs => h.stat (hstat.mp hs), herror ▸ h.error⟩⟩

/-- A thread to which nothing happened was picked if it was before. -/
theorem Granted.same (htail : s'.tail t = s.tail t)
    (hthread : s'.kernel.thread t = s.kernel.thread t) :
    Granted s' i t ↔ Granted s i t :=
  Granted.congr htail (by rw [hthread]) (by rw [hthread])

/-- The current thread was not picked when it has called a function. -/
theorem call_not_granted (h : Sound idle s) {c : Call}
    (hrest : s.rest s.kernel.currentThread = none)
    (hc : c.Allowed idle s.kernel) : ¬ Granted (s.call c).1 i s.kernel.currentThread := by
  have hpause : ∀ k rest, rest.bind Rest.tail = none →
      ¬ Granted (s.pause k rest) i s.kernel.currentThread := by
    intro k rest hnone hg
    have htail := hg.tail
    rw [Tasks.tail_pause, Function.update_self, hnone] at htail
    cases htail
  cases c with
  | startup t => exact hpause _ _ rfl
  | exit => exact hpause _ _ rfl
  | yield =>
    rcases hyield : s.kernel.rtThreadYield with ⟨k, goes⟩
    cases goes <;> (simp only [Tasks.call, hyield]; exact hpause _ _ rfl)
  | sleep tick =>
    intro hg
    have htail := hg.tail
    rw [Tasks.call, Tasks.tail_pause, Function.update_self] at htail
    cases htail
  | enterCritical => exact hpause _ _ rfl
  | exitCritical =>
    rcases hexit : s.kernel.rtExitCritical with ⟨k, goes⟩
    cases goes <;> (simp only [Tasks.call, hexit]; exact hpause _ _ rfl)
  | semTake j time =>
    rcases htake : s.kernel.rtSemTake j time with ⟨k, e | _⟩
    · cases e <;> (simp only [Tasks.call, htake]; exact hpause _ _ rfl)
    · refine fun hg => hg.stat ?_
      simp only [Tasks.call, htake]
      show (k.thread s.kernel.currentThread).stat = .suspend
      have hvalue : (s.kernel.sem j).value = 0 := by
        by_contra hne
        rw [rtSemTake, if_pos hne] at htake
        cases htake
      have hzero : time ≠ 0 := by
        intro hzero
        rw [rtSemTake, if_neg (not_not.mpr hvalue), if_pos hzero] at htake
        cases htake
      obtain ⟨-, -, hlt⟩ := hc.of_waits hvalue hzero
      obtain ⟨-, -, -, -, hthread, -⟩ := rtSemTake_waits (i := j) h.kernel.waits h.kernel.timers
        (h.ready (not_scheduling hrest)) hvalue hzero hlt
      rw [htake] at hthread
      rw [hthread, Function.update_self]
      rfl
  | semRelease j =>
    rcases rtSemRelease_cases s.kernel j with ⟨t, l, -, heq⟩ | ⟨-, -, heq⟩ | ⟨-, heq⟩ <;>
      (simp only [Tasks.call, heq]; exact hpause _ _ rfl)

/-- A thread in no function was not picked. -/
theorem not_granted_of_none (hrest : s.rest s.kernel.currentThread = none) :
    ¬ Granted s i s.kernel.currentThread := by
  intro hg
  have htail := hg.tail
  rw [Tasks.tail, hrest] at htail
  cases htail

/-- No call but a release picks a thread. -/
theorem call_granted (h : Sound idle s) {c : Call} (hrest : s.rest s.kernel.currentThread = none)
    (hc : c.Allowed idle s.kernel) (hrelease : ∀ j, c ≠ .semRelease j) (t : Nat) :
    Granted (s.call c).1 i t ↔ Granted s i t := by
  by_cases hcur : t = s.kernel.currentThread
  · rw [hcur]
    exact iff_of_false (call_not_granted h hrest hc) (not_granted_of_none hrest)
  · obtain ⟨rest, heq⟩ := s.call_eq c
    have htail : (s.call c).1.tail t = s.tail t := by
      rw [heq, Tasks.tail_pause, Function.update_of_ne hcur]
    rcases (effect_others h hrest hc hcur).2 with hsame | ⟨hinit, hstarted⟩ | ⟨j, hj, -⟩
    · exact Granted.same htail (by rw [heq]; exact hsame)
    · refine Granted.congr htail ?_ ?_
      · rw [heq]
        show ((c.effect s.kernel).thread t).stat = _ ↔ _
        rw [hstarted, hinit]
        exact iff_of_false nofun nofun
      · rw [heq]
        show ((c.effect s.kernel).thread t).error = _
        rw [hstarted]
        rfl
    · exact absurd hj (hrelease j)

/-- The units after a step are what they were, and what has been released and
not been taken. -/
def Balanced (i n : Nat) (r : Tasks × Option Event) : Prop :=
  ∃ m, Units r.1 i m ∧
    n + r.2.toList.countP (Event.releases i) = m + r.2.toList.countP (Event.takes i)

/-- Nothing becomes known, and nothing has happened to the units. -/
theorem Units.quiet {n : Nat} {e : Option Event} (hu : Units s i n)
    (hgranted : ∀ t, Granted s' i t ↔ Granted s i t)
    (hvalue : (s'.kernel.sem i).value = (s.kernel.sem i).value)
    (he : ∀ ev ∈ e, ev.releases i = false ∧ ev.takes i = false) : Balanced i n (s', e) := by
  refine ⟨n, hu.same hgranted hvalue, ?_⟩
  cases e with
  | none => rfl
  | some ev =>
    obtain ⟨hr, ht⟩ := he ev rfl
    simp [hr, ht]

/-- A release that wakes the first thread that waits has picked it. -/
theorem Units.released {n j : Nat} {l : List Nat} (h : Sound idle s) (hu : Units s i n)
    (hlist : (s.kernel.sem j).suspendThread = t :: l) (htail : s'.tail = s.tail)
    (hthread : s'.kernel.thread = (s.kernel.rtThreadResume t).thread)
    (hvalue : ∀ i, (s'.kernel.sem i).value = (s.kernel.sem i).value) :
    Balanced i n (s', some (.released j)) := by
  obtain ⟨hstat, hwaits⟩ := (h.kernel.waits.mem_iff t j).mp (hlist ▸ List.mem_cons_self)
  rw [(h.kernel.timers.rtThreadResume hstat).1.thread] at hthread
  have hothers : ∀ u, u ≠ t → (Granted s' i u ↔ Granted s i u) := fun u hut =>
    Granted.same (congrFun htail u) (by rw [hthread, Function.update_of_ne hut])
  have hold : ¬ Granted s i t := fun hg => hg.stat hstat
  by_cases hij : j = i
  · subst hij
    refine ⟨n + 1, hu.pick hold ⟨?_, ?_, ?_⟩ hothers (hvalue j),
      by simp [Event.releases, Event.takes]⟩
    · rw [htail]
      exact hwaits
    · rw [hthread, Function.update_self]
      exact nofun
    · rw [hthread, Function.update_self]
      exact h.kernel.waits.error t j hstat hwaits
  · refine hu.quiet (fun u => ?_) (hvalue i) fun ev hev => ?_
    · by_cases hut : u = t
      · rw [hut]
        refine iff_of_false (fun hg => hij ?_) hold
        have hother := hg.tail
        rw [htail, hwaits] at hother
        exact Tail.semTake.inj (Option.some.inj hother)
      · exact hothers u hut
    · obtain rfl := Option.some.inj hev
      exact ⟨beq_eq_false_iff_ne.mpr hij, rfl⟩

/-- A release that nobody waits for, or a take that does not wait. -/
theorem Units.valued {n j : Nat} {v : BitVec 16} {ev : Event} (hu : Units s i n)
    (htail : s'.tail = s.tail) (hthread : s'.kernel.thread = s.kernel.thread)
    (hsem : s'.kernel.sem = Function.update s.kernel.sem j { s.kernel.sem j with value := v })
    (hev : (s.kernel.sem j).value.toNat + (if ev.releases j then 1 else 0) =
      v.toNat + if ev.takes j then 1 else 0)
    (hother : j ≠ i → ev.releases i = false ∧ ev.takes i = false) : Balanced i n (s', some ev) := by
  have hgranted : ∀ t, Granted s' i t ↔ Granted s i t := fun t =>
    Granted.same (congrFun htail t) (congrFun hthread t)
  by_cases hij : j = i
  · subst hij
    have hv : (s'.kernel.sem j).value = v := by rw [hsem, Function.update_self]
    obtain ⟨granted, hnodup, hiff, hn⟩ := hu
    refine ⟨v.toNat + granted.length, ⟨granted, hnodup, fun t => (hiff t).trans (hgranted t).symm,
      by rw [hv]⟩, ?_⟩
    simp only [Option.toList_some, List.countP_singleton]
    omega
  · refine hu.quiet hgranted (by rw [hsem, Function.update_of_ne (Ne.symm hij)]) fun e he => ?_
    obtain rfl := Option.some.inj he
    exact hother hij

theorem toNat_sub_one {v : BitVec 16} (h : v ≠ 0) : v.toNat = (v - 1).toNat + 1 := by
  have hpos : v.toNat ≠ 0 := fun hzero => h (BitVec.eq_of_toNat_eq hzero)
  have hlt := v.isLt
  rw [BitVec.toNat_sub, show (1 : BitVec 16).toNat = 1 from rfl]
  omega

theorem toNat_add_one {v : BitVec 16} (h : v < rtSemValueMax) : v.toNat + 1 = (v + 1).toNat := by
  rw [BitVec.lt_def, show rtSemValueMax.toNat = 65535 from rfl] at h
  rw [BitVec.toNat_add, show (1 : BitVec 16).toNat = 1 from rfl]
  omega

/-- A semaphore that is not full, or is, when nobody waits for it. -/
theorem released_value {j : Nat} {v : BitVec 16} (hlt : v < rtSemValueMax) :
    v.toNat + (if (Event.released j).releases j then 1 else 0) =
      (v + 1).toNat + if (Event.released j).takes j then 1 else 0 := by
  rw [if_pos (show (Event.released j).releases j = true from beq_self_eq_true j),
    ← toNat_add_one hlt]
  rfl

theorem released_other {j : Nat} (hij : j ≠ i) :
    (Event.released j).releases i = false ∧ (Event.released j).takes i = false :=
  ⟨beq_eq_false_iff_ne.mpr hij, rfl⟩

/-- Resuming a thread that waits changes no value. -/
theorem value_rtThreadResume {l : List Nat} {j : Nat} (h : Sound idle s)
    (hlist : (s.kernel.sem j).suspendThread = t :: l) (i : Nat) :
    ((s.kernel.rtThreadResume t).sem i).value = (s.kernel.sem i).value := by
  have hstat := ((h.kernel.waits.mem_iff t j).mp (hlist ▸ List.mem_cons_self)).1
  rw [(h.kernel.timers.rtThreadResume hstat).1.sem]

/-- Pausing with nothing that waits changes nothing that the threads have before
them. -/
theorem tail_pause_none (hrest : s.rest s.kernel.currentThread = none) {rest : Option Rest}
    (hnone : rest.bind Rest.tail = none) : (s.pause k rest).tail = s.tail := by
  rw [Tasks.tail_pause, hnone]
  exact Tasks.tail_none hrest

/-- `rt_sem_release` adds the unit it releases, to the value or to the thread it
picks; a full semaphore is left. -/
theorem Units.call_semRelease {n j : Nat} (h : Sound idle s) (hu : Units s i n)
    (hrest : s.rest s.kernel.currentThread = none) : Balanced i n (s.call (.semRelease j)) := by
  rcases rtSemRelease_cases s.kernel j with ⟨t, l, hlist, heq⟩ | ⟨-, hlt, heq⟩ | ⟨-, heq⟩
  · simp only [Tasks.call, heq]
    exact hu.released h hlist (tail_pause_none hrest rfl) rfl (value_rtThreadResume h hlist)
  · simp only [Tasks.call, heq]
    exact hu.valued (tail_pause_none hrest rfl) rfl rfl (released_value hlt) released_other
  · simp only [Tasks.call, heq]
    refine hu.quiet (fun t => Granted.same ?_ rfl) rfl fun ev hev => ?_
    · exact congrFun (tail_pause_none hrest rfl) t
    · obtain rfl := Option.some.inj hev
      exact ⟨rfl, rfl⟩

/-- A release from an interrupt adds the unit it releases. -/
theorem Units.isrRelease {n j : Nat} (h : Sound idle s) (hu : Units s i n) :
    Balanced i n (s.isrRelease j) := by
  rcases rtSemRelease_cases s.kernel j with ⟨t, l, hlist, heq⟩ | ⟨-, hlt, heq⟩ | ⟨-, heq⟩
  · obtain ⟨hthread, -, hsem⟩ := thread_rtSchedule (s.kernel.rtThreadResume t)
    simp only [Tasks.isrRelease, heq]
    refine hu.released h hlist rfl hthread fun i => ?_
    show ((s.kernel.rtThreadResume t).rtSchedule.sem i).value = _
    rw [hsem]
    exact value_rtThreadResume h hlist i
  · simp only [Tasks.isrRelease, heq]
    exact hu.valued rfl rfl rfl (released_value hlt) released_other
  · simp only [Tasks.isrRelease, heq]
    refine hu.quiet (fun _ => .rfl) rfl fun ev hev => ?_
    obtain rfl := Option.some.inj hev
    exact ⟨rfl, rfl⟩

/-- A take that returns at once removes the unit it takes; one that waits or
fails removes none. -/
theorem Units.call_semTake {n j : Nat} {time : Int} (h : Sound idle s) (hu : Units s i n)
    (hrest : s.rest s.kernel.currentThread = none)
    (hc : (Call.semTake j time).Allowed idle s.kernel) :
      Balanced i n (s.call (.semTake j time)) := by
  have hgranted := call_granted (i := i) h hrest hc (by simp)
  by_cases hvalue : (s.kernel.sem j).value = 0
  · by_cases hzero : time = 0
    · have hcall : s.call (.semTake j time) =
          (s.pause s.kernel none, some (.refused s.kernel.currentThread j .timeout)) := by
        simp only [Tasks.call, rtSemTake, if_neg (not_not.mpr hvalue), if_pos hzero]
      rw [hcall] at hgranted ⊢
      refine hu.quiet hgranted rfl fun ev hev => ?_
      obtain rfl := Option.some.inj hev
      exact ⟨rfl, rfl⟩
    · obtain ⟨-, -, hlt⟩ := hc.of_waits hvalue hzero
      obtain ⟨hwaits, -, -, -, -, hvalues⟩ :=
        rtSemTake_waits (i := j) h.kernel.waits h.kernel.timers
        (h.ready (not_scheduling hrest)) hvalue hzero hlt
      have hcall : s.call (.semTake j time) =
          (s.pause (s.kernel.rtSemTake j time).1 (some (.schedule (some (.semTake j)))), none) := by
        rcases htake : s.kernel.rtSemTake j time with ⟨k, taken⟩
        rw [htake] at hwaits
        obtain rfl : taken = .waits := hwaits
        simp only [Tasks.call, htake]
      rw [hcall] at hgranted ⊢
      exact hu.quiet hgranted (hvalues i) (by simp)
  · have hcall : s.call (.semTake j time) = (s.pause { s.kernel with
        sem := Function.update s.kernel.sem j
          { s.kernel.sem j with value := (s.kernel.sem j).value - 1 } } none,
        some (.taken s.kernel.currentThread j)) := by
      simp only [Tasks.call, rtSemTake, if_pos hvalue]
    rw [hcall]
    refine hu.valued (tail_pause_none hrest rfl) rfl rfl ?_ fun hij =>
      ⟨rfl, beq_eq_false_iff_ne.mpr hij⟩
    rw [if_neg (show ¬ (Event.taken s.kernel.currentThread j).releases j = true
        from Bool.false_ne_true),
      if_pos (show (Event.taken s.kernel.currentThread j).takes j = true from beq_self_eq_true j)]
    exact toNat_sub_one hvalue

/-- The tick interrupt adds and removes no unit: a timeout picks nobody. -/
theorem Units.tick {n : Nat} (h : Sound idle s) (hu : Units s i n) :
    Balanced i n (s.step .tick) := by
  obtain ⟨-, -, -, hticked⟩ := rtTickIncrease_spec h.kernel.queues h.kernel.timers h.kernel.waits
  refine hu.quiet (fun t => ?_) (hticked.value i) nofun
  by_cases hdue : (s.kernel.thread t).threadTimer.activated = true ∧
    s.kernel.left s.kernel.tick t ≤ 1
  · -- it was suspended, and now it has timed out
    refine iff_of_false (fun hg => ?_) fun hg => hg.stat (h.kernel.timers.suspended t hdue.1)
    have herror : (s.kernel.rtTickIncrease.thread t).error = .ok := hg.error
    rw [hticked.due t hdue.1 hdue.2] at herror
    cases herror
  · have hothers := hticked.others t fun hactive => Nat.not_le.mp fun hle => hdue ⟨hactive, hle⟩
    refine Granted.congr rfl ?_ ?_
    · show (s.kernel.rtTickIncrease.thread t).stat = _ ↔ _
      rw [hothers]
    · show (s.kernel.rtTickIncrease.thread t).error = _
      rw [hothers]

/-- Once its function is over the current thread has no unit outstanding. -/
theorem not_granted_pause (s : Tasks) (k : Kernel) :
    ¬ Granted (s.pause k none) i s.kernel.currentThread := by
  intro hg
  have htail := hg.tail
  rw [Tasks.tail_pause, Function.update_self] at htail
  cases htail

/-- Pausing the current thread does not concern the others. -/
theorem granted_pause_of_ne {rest : Option Rest} (hne : t ≠ s.kernel.currentThread)
    (hthread : k.thread t = s.kernel.thread t) : Granted (s.pause k rest) i t ↔ Granted s i t :=
  Granted.same (by rw [Tasks.tail_pause, Function.update_of_ne hne]) hthread

/-- A thread that goes on in `rt_sem_take` takes the unit it was picked for, or
has timed out. -/
theorem Units.goOn_semTake {n j : Nat} (h : Sound idle s) (hu : Units s i n)
    (hrest : s.rest s.kernel.currentThread = some (.behind (.semTake j))) :
      Balanced i n s.goOn := by
  have htail : s.tail s.kernel.currentThread = some (.semTake j) := by rw [Tasks.tail, hrest]; rfl
  have hothers : ∀ t, t ≠ s.kernel.currentThread →
      (Granted (s.pause s.kernel none) i t ↔ Granted s i t) := fun t hne =>
        granted_pause_of_ne hne rfl
  have hquiet : ∀ ev : Event, ¬ Granted s i s.kernel.currentThread → ev.releases i = false →
      ev.takes i = false → Balanced i n (s.pause s.kernel none, some ev) := by
    intro ev hnot hr ht
    refine hu.quiet (fun t => ?_) rfl fun e he => ?_
    · by_cases hcur : t = s.kernel.currentThread
      · rw [hcur]
        exact iff_of_false (not_granted_pause s _) hnot
      · exact hothers t hcur
    · obtain rfl := Option.some.inj he
      exact ⟨hr, ht⟩
  simp only [Tasks.goOn, hrest]
  split
  · next herror =>
    by_cases hij : j = i
    · subst hij
      have hold : Granted s j s.kernel.currentThread :=
        ⟨htail, by rw [(h.behind hrest).2.1]; decide, herror⟩
      obtain ⟨m, hm, hn⟩ := hu.collect hold (not_granted_pause s s.kernel) hothers rfl
      exact ⟨m, hm, by simp [Event.releases, Event.takes, hn]⟩
    · refine hquiet _ (fun hg => hij ?_) rfl (beq_eq_false_iff_ne.mpr hij)
      exact Tail.semTake.inj (Option.some.inj (htail.symm.trans hg.tail))
  · next herror => exact hquiet _ (fun hg => herror hg.error) rfl rfl

/-- The rest of a function removes the unit it takes, if it was a take. -/
theorem Units.goOn {n : Nat} (h : Sound idle s) (hu : Units s i n) : Balanced i n s.goOn := by
  rcases hrest : s.rest s.kernel.currentThread with _ | ⟨tail⟩ | ⟨_ | j⟩
  · simp only [Tasks.goOn, hrest]
    exact hu.quiet (fun _ => .rfl) rfl nofun
  · obtain ⟨hthread, -, hsem⟩ := thread_rtSchedule s.kernel
    have htail : (s.pause s.kernel.rtSchedule (tail.map .behind)).tail = s.tail := by
      have hself : s.tail s.kernel.currentThread = tail := by rw [Tasks.tail, hrest]; rfl
      have hbind : (tail.map Rest.behind).bind Rest.tail = tail := by cases tail <;> rfl
      rw [Tasks.tail_pause, hbind, ← hself]
      exact Function.update_eq_self _ _
    simp only [Tasks.goOn, hrest]
    refine hu.quiet (fun t => Granted.same (congrFun htail t) (congrFun hthread t)) ?_ nofun
    show (s.kernel.rtSchedule.sem i).value = _
    rw [hsem]
  · simp only [Tasks.goOn, hrest]
    have hsem : s.kernel.sleepEnd.sem = s.kernel.sem ∧ ∀ t, t ≠ s.kernel.currentThread →
        s.kernel.sleepEnd.thread t = s.kernel.thread t := by
      unfold sleepEnd
      dsimp only
      split
      · exact ⟨rfl, fun t hne => by rw [thread_setThread, Function.update_of_ne hne]⟩
      · exact ⟨rfl, fun _ _ => rfl⟩
    refine hu.quiet (fun t => ?_) (congrArg (fun sem => (sem i).value) hsem.1) nofun
    by_cases hcur : t = s.kernel.currentThread
    · rw [hcur]
      refine iff_of_false (not_granted_pause s _) fun hg => ?_
      have htail := hg.tail
      rw [Tasks.tail, hrest] at htail
      cases htail
    · exact granted_pause_of_ne hcur (hsem.2 t hcur)
  · exact hu.goOn_semTake h hrest

/-- The calls that are not about semaphores change no value. -/
theorem value_call (h : Sound idle s) {c : Call} (hrest : s.rest s.kernel.currentThread = none)
    (hc : c.Allowed idle s.kernel) (hrelease : ∀ j, c ≠ .semRelease j)
    (htake : ∀ j time, c ≠ .semTake j time) :
    ((c.effect s.kernel).sem i).value = (s.kernel.sem i).value := by
  have hready := h.ready (not_scheduling hrest)
  cases c with
  | startup t => exact congrArg Semaphore.value ((rtThreadStartup_spec h.kernel hc).2.2.2 i)
  | exit =>
    obtain ⟨-, -, -, -, -, hsem⟩ := rtThreadExit_spec h.kernel hready hc.1 (Ne.symm hc.2) h.idle
    exact congrArg Semaphore.value (hsem i)
  | yield => exact congrArg Semaphore.value ((rtThreadYield_same h.kernel.waits).2.1 i)
  | sleep tick =>
    obtain ⟨-, -, -, hsem⟩ := h.kernel.timers.rtThreadSleep hready hc.2.2
    show ((s.kernel.rtThreadSleep tick).sem i).value = _
    rw [hsem]
  | enterCritical => rfl
  | exitCritical =>
    show (s.kernel.rtExitCritical.1.sem i).value = _
    unfold rtExitCritical
    split <;> rfl
  | semTake j time => exact absurd rfl (htake j time)
  | semRelease j => exact absurd rfl (hrelease j)

/-- **One action** balances the units: what is there afterwards and what was
taken make up what was there and what was released. -/
theorem Units.step {n : Nat} (h : Sound idle s) (hu : Units s i n) (ha : a.Allowed idle s) :
    Balanced i n (s.step a) := by
  cases a with
  | tick => exact hu.tick h
  | isrRelease j => exact hu.isrRelease h
  | goOn => exact hu.goOn h
  | call c =>
    obtain ⟨hrest, hc⟩ := ha
    have hquiet : (∀ j, c ≠ .semRelease j) → (∀ j time, c ≠ .semTake j time) → (s.call c).2 = none →
        Balanced i n (s.call c) := by
      intro hrelease htake hnone
      obtain ⟨rest, heq⟩ := s.call_eq c
      have hvalue : ((s.call c).1.kernel.sem i).value = (s.kernel.sem i).value := by
        rw [heq]
        exact value_call h hrest hc hrelease htake
      have hbalanced := hu.quiet (e := none) (call_granted h hrest hc hrelease) hvalue
        (by simp)
      rwa [← hnone] at hbalanced
    cases c with
    | semTake j time => exact hu.call_semTake h hrest hc
    | semRelease j => exact hu.call_semRelease h hrest
    | yield =>
      refine hquiet (by simp) (by simp) ?_
      rcases hyield : s.kernel.rtThreadYield with ⟨k, goes⟩
      cases goes <;> simp only [Tasks.call, hyield]
    | exitCritical =>
      refine hquiet (by simp) (by simp) ?_
      rcases hexit : s.kernel.rtExitCritical with ⟨k, goes⟩
      cases goes <;> simp only [Tasks.call, hexit]
    | _ => exact hquiet (by simp) (by simp) rfl

/-- **A run** balances the units, by induction over its actions. -/
theorem Units.runs {n : Nat} (h : Sound idle s) (hu : Units s i n) (hr : Runs idle s as es s') :
    ∃ m, Units s' i m ∧ n + es.countP (Event.releases i) = m + es.countP (Event.takes i) := by
  induction hr with
  | start => exact ⟨n, hu, rfl⟩
  | step hr ha ih =>
    obtain ⟨m, hm, hcount⟩ := ih
    obtain ⟨m', hm', hcount'⟩ := hm.step (h.runs hr) ha
    refine ⟨m', hm', ?_⟩
    rw [List.countP_append, List.countP_append]
    omega

/-- **Semaphores are conserved.** At any time, the units a semaphore had at
first and those that have been released are those that have been taken, its
value, and one for each thread that a release has picked and that has not
gone on yet. While there is a value nobody waits; the list of the semaphore
has just the threads that wait for it, once each, and by priority if it is of
that kind. -/
theorem sem_conserved (h : Startup idle thread sem threads)
    (hr : Runs idle (rtthreadStartup thread sem threads) as es s) (i : Nat) :
    (∃ granted : List Nat, granted.Nodup ∧
      (∀ t, t ∈ granted ↔ s.tail t = some (.semTake i) ∧ (s.kernel.thread t).stat ≠ .suspend ∧
        (s.kernel.thread t).error = .ok) ∧
      (sem i).value.toNat + es.countP (Event.releases i) =
        (s.kernel.sem i).value.toNat + granted.length + es.countP (Event.takes i)) ∧
    ((s.kernel.sem i).value ≠ 0 → (s.kernel.sem i).suspendThread = []) ∧
    (∀ t, t ∈ (s.kernel.sem i).suspendThread ↔
      (s.kernel.thread t).stat = .suspend ∧ s.tail t = some (.semTake i)) ∧
    (s.kernel.sem i).suspendThread.Nodup ∧
    ((s.kernel.sem i).flag = .prio → (s.kernel.sem i).suspendThread.Pairwise fun t u =>
      (s.kernel.thread t).currentPriority ≤ (s.kernel.thread u).currentPriority) := by
  obtain ⟨hsound, hsem⟩ := sound_startup h
  have hfirst : Units (rtthreadStartup thread sem threads) i (sem i).value.toNat := by
    refine ⟨[], .nil, fun t => iff_of_false List.not_mem_nil fun hg => ?_, by rw [hsem]; rfl⟩
    have htail := hg.tail
    cases htail
  obtain ⟨m, ⟨granted, hnodup, hiff, rfl⟩, hcount⟩ := hfirst.runs hsound hr
  have hwaits := (hsound.runs hr).kernel.waits
  refine ⟨⟨granted, hnodup, fun t => (hiff t).trans ⟨fun hg => ⟨hg.tail, hg.stat, hg.error⟩,
    fun hg => ⟨hg.1, hg.2.1, hg.2.2⟩⟩, hcount⟩, hwaits.empty i, fun t => hwaits.mem_iff t i,
    hwaits.nodup i, hwaits.order i⟩

/-- The unit that was released is the picked thread's. -/
theorem sem_conserved_small : ∃ granted : List Nat, granted.length = 1 ∧ ∀ t, t ∈ granted ↔
    pickedSystem.tail t = some (.semTake 0) ∧ (pickedSystem.kernel.thread t).stat ≠ .suspend ∧
      (pickedSystem.kernel.thread t).error = .ok := by
  obtain ⟨granted, -, hiff, hcount⟩ := (sem_conserved startup_small runs_picked 0).1
  refine ⟨granted, ?_, hiff⟩
  have hvalue : (pickedSystem.kernel.sem 0).value = 0 := by decide
  rw [hvalue] at hcount
  exact (Nat.add_left_cancel hcount).symm

end Ch583Kbd.Rtt
