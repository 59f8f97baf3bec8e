/-
Ch583Kbd.Lib.RingQueue — a bounded FIFO queue kept in a circular array,
with the list it stands for.

The array has `n` slots and two indices: `tail`, the oldest element, and
`head`, the slot the next element goes to. Both advance by
`(i + 1) % n`, so `head = tail` means empty and one slot always stays
free: the queue holds at most `n - 1` elements.

A loop `for (i = tail; i != head; i = (i + 1) % n)` visits `indices`;
`toList` reads the slots in that order. Every operation is then a list
operation: `toList_push`, `toList_pop`, `toList_setSlot`. The stale
contents of the free slots never reach `toList`.
-/
import Mathlib.Data.List.Basic
import Mathlib.Data.List.Find
import Mathlib.Tactic.SplitIfs
import Mathlib.Tactic.ByContra

namespace Ch583Kbd.Lib

/-- A circular array of `n` slots with its two indices. -/
structure RingQueue (α : Type) (n : Nat) where
  slots : Vector α n
  head : Fin n
  tail : Fin n

namespace RingQueue

variable {α : Type} {n : Nat}

/-- The successor of an index, `(i + 1) % n`. -/
def next (i : Fin n) : Fin n :=
  ⟨(i.val + 1) % n, Nat.mod_lt _ (Nat.lt_of_le_of_lt (Nat.zero_le _) i.isLt)⟩

/-- The indices a loop from `i` up to (not including) `h` visits; the
fuel bounds the number of rounds. -/
def indicesFrom : Nat → Fin n → Fin n → List (Fin n)
  | 0, _, _ => []
  | fuel + 1, i, h => if i = h then [] else i :: indicesFrom fuel (next i) h

/-- The occupied indices, oldest first. -/
def indices (q : RingQueue α n) : List (Fin n) :=
  indicesFrom n q.tail q.head

def slot (q : RingQueue α n) (i : Fin n) : α := q.slots.get i

/-- The queue's contents, oldest first. -/
def toList (q : RingQueue α n) : List α := q.indices.map q.slot

def isEmpty (q : RingQueue α n) : Bool := q.tail == q.head

def isFull (q : RingQueue α n) : Bool := next q.head == q.tail

def setSlot (q : RingQueue α n) (i : Fin n) (a : α) : RingQueue α n :=
  { q with slots := q.slots.set i.val a i.isLt }

/-- Write at `head` and advance it (no check for room). -/
def push (q : RingQueue α n) (a : α) : RingQueue α n :=
  { q.setSlot q.head a with head := next q.head }

/-- Advance `tail`. -/
def pop (q : RingQueue α n) : RingQueue α n := { q with tail := next q.tail }

/-! ## Walking the indices -/

/-- How many rounds the loop from `i` to `h` makes. -/
def dist (i h : Fin n) : Nat := if i ≤ h then h.val - i.val else n - i.val + h.val

theorem next_val (i : Fin n) :
    (next i).val = if i.val + 1 = n then 0 else i.val + 1 := by
  have hi := i.isLt
  unfold next
  split
  · next h => simp [h]
  · next h => exact Nat.mod_eq_of_lt (by omega)

theorem dist_self (i : Fin n) : dist i i = 0 := by simp [dist]

theorem dist_lt (i h : Fin n) : dist i h < n := by
  have hi := i.isLt
  have hh := h.isLt
  unfold dist
  split
  · omega
  · next hle => rw [Fin.not_le, Fin.lt_def] at hle; omega

theorem dist_eq_zero {i h : Fin n} : dist i h = 0 ↔ i = h := by
  have hi := i.isLt
  unfold dist
  rw [Fin.ext_iff]
  split
  · next hle => rw [Fin.le_def] at hle; omega
  · next hle => rw [Fin.not_le, Fin.lt_def] at hle; omega

/-- One step forward brings the end one round nearer. -/
theorem dist_next {i h : Fin n} (hne : i ≠ h) : dist i h = dist (next i) h + 1 := by
  have hi := i.isLt
  have hh := h.isLt
  have hv := next_val i
  rw [Ne, Fin.ext_iff] at hne
  simp only [dist, Fin.le_def, hv]
  split at hv <;> split <;> split <;> omega

/-- Moving the target one slot on lengthens the walk by one, unless that
closes the circle. -/
theorem dist_next_right {i h : Fin n} (hne : next h ≠ i) :
    dist i (next h) = dist i h + 1 := by
  have hi := i.isLt
  have hh := h.isLt
  have hv := next_val h
  rw [Ne, Fin.ext_iff] at hne
  simp only [dist, Fin.le_def]
  split_ifs at hv ⊢ <;> omega

/-- Any fuel of at least the distance gives the whole walk. -/
theorem indicesFrom_fuel : ∀ (fuel : Nat) (i h : Fin n), dist i h ≤ fuel →
    indicesFrom fuel i h = indicesFrom (dist i h) i h := by
  intro fuel
  induction fuel with
  | zero =>
    intro i h hf
    rw [Nat.le_zero.mp hf]
  | succ fuel ih =>
    intro i h hf
    by_cases hih : i = h
    · subst hih
      simp [indicesFrom, dist_self]
    · have hd := dist_next hih
      rw [hd, indicesFrom, indicesFrom, if_neg hih, if_neg hih,
          ih (next i) h (by omega)]

/-- Enough fuel walks to the end: the loop makes `dist` rounds. -/
theorem indicesFrom_length : ∀ (fuel : Nat) (i h : Fin n), dist i h ≤ fuel →
    (indicesFrom fuel i h).length = dist i h := by
  intro fuel
  induction fuel with
  | zero => intro i h hf; simp [indicesFrom, Nat.le_zero.mp hf]
  | succ fuel ih =>
    intro i h hf
    by_cases hih : i = h
    · subst hih
      simp [indicesFrom, dist_self]
    · have hd := dist_next hih
      rw [indicesFrom, if_neg hih, List.length_cons, ih (next i) h (by omega), hd]

/-- Extending the target by one appends the old target. -/
theorem indicesFrom_next_right : ∀ (fuel : Nat) (i h : Fin n), next h ≠ i →
    dist i h ≤ fuel → indicesFrom (fuel + 1) i (next h) = indicesFrom fuel i h ++ [h] := by
  intro fuel
  induction fuel with
  | zero =>
    intro i h hne hf
    have hih : i = h := dist_eq_zero.mp (by omega)
    subst hih
    simp [indicesFrom, Ne.symm hne]
  | succ fuel ih =>
    intro i h hne hf
    rw [indicesFrom, if_neg (Ne.symm hne)]
    by_cases hih : i = h
    · subst hih
      simp [indicesFrom]
    · have hd := dist_next hih
      -- the walk from `next i` still does not close the circle
      have hne' : next h ≠ next i := by
        intro he
        have hv := next_val h
        have hv' := next_val i
        rw [he] at hv
        rw [Fin.ext_iff] at hih
        have hi := i.isLt
        have hh := h.isLt
        split at hv <;> split at hv' <;> omega
      rw [ih (next i) h hne' (by omega), indicesFrom, if_neg hih, List.cons_append]

/-- An index that is visited is no farther from the end and is not the end. -/
theorem mem_indicesFrom_dist : ∀ (fuel : Nat) (i h j : Fin n), j ∈ indicesFrom fuel i h →
    dist j h ≤ dist i h ∧ j ≠ h := by
  intro fuel
  induction fuel with
  | zero => intro i h j hj; simp [indicesFrom] at hj
  | succ fuel ih =>
    intro i h j hj
    by_cases hih : i = h
    · simp [indicesFrom, hih] at hj
    · rw [indicesFrom, if_neg hih, List.mem_cons] at hj
      rcases hj with rfl | hj
      · exact ⟨Nat.le_refl _, hih⟩
      · have hd := dist_next hih
        obtain ⟨hle, hne⟩ := ih _ _ _ hj
        exact ⟨by omega, hne⟩

/-- No index is visited twice. -/
theorem indicesFrom_nodup : ∀ (fuel : Nat) (i h : Fin n), (indicesFrom fuel i h).Nodup := by
  intro fuel
  induction fuel with
  | zero => intro i h; simp [indicesFrom]
  | succ fuel ih =>
    intro i h
    by_cases hih : i = h
    · simp [indicesFrom, hih]
    · rw [indicesFrom, if_neg hih, List.nodup_cons]
      refine ⟨fun hmem => ?_, ih _ _⟩
      have hd := dist_next hih
      have := (mem_indicesFrom_dist _ _ _ _ hmem).1
      omega

/-! ## The operations on the list -/

theorem indices_length (q : RingQueue α n) : q.indices.length = dist q.tail q.head :=
  indicesFrom_length _ _ _ (Nat.le_of_lt (dist_lt _ _))

/-- A queue holds as many elements as the loop makes rounds. -/
theorem toList_length (q : RingQueue α n) : q.toList.length = dist q.tail q.head := by
  rw [toList, List.length_map, indices_length]

theorem indices_nodup (q : RingQueue α n) : q.indices.Nodup := indicesFrom_nodup _ _ _

@[simp] theorem slot_setSlot (q : RingQueue α n) (i j : Fin n) (a : α) :
    (q.setSlot i a).slot j = if j = i then a else q.slot j := by
  show (q.slots.set i a)[j.val] = if j = i then a else q.slots[j.val]
  simp only [Vector.getElem_set, Fin.ext_iff, eq_comm]

@[simp] theorem indices_setSlot (q : RingQueue α n) (i : Fin n) (a : α) :
    (q.setSlot i a).indices = q.indices := rfl

/-- The ends of a queue meet exactly when it holds no element. -/
theorem isEmpty_iff (q : RingQueue α n) : q.isEmpty = true ↔ q.toList = [] := by
  rw [← List.length_eq_zero_iff, toList_length, dist_eq_zero, isEmpty, beq_iff_eq]

/-- A pop drops the first index. -/
theorem indices_pop (q : RingQueue α n) (h : q.isEmpty = false) :
    q.indices = q.tail :: q.pop.indices := by
  have hne : q.tail ≠ q.head := by
    intro he; simp [isEmpty, he] at h
  have hd := dist_next hne
  have hlt := dist_lt q.tail q.head
  have hpop : q.pop.indices = indicesFrom (dist (next q.tail) q.head) (next q.tail) q.head :=
    indicesFrom_fuel _ _ _ (Nat.le_of_lt (dist_lt _ _))
  rw [hpop, indices, indicesFrom_fuel _ _ _ (Nat.le_of_lt hlt), hd, indicesFrom, if_neg hne]

/-- A non-empty queue is its oldest element followed by the rest. -/
theorem toList_pop (q : RingQueue α n) (h : q.isEmpty = false) :
    q.toList = q.slot q.tail :: q.pop.toList := by
  rw [toList, indices_pop q h, List.map_cons]
  rfl

/-- Writing the oldest slot replaces the first element. -/
theorem toList_setSlot_tail (q : RingQueue α n) (a : α) (h : q.isEmpty = false) :
    (q.setSlot q.tail a).toList = a :: q.pop.toList ∧
      (q.setSlot q.tail a).pop.toList = q.pop.toList := by
  have hnd : (q.tail :: q.pop.indices).Nodup := indices_pop q h ▸ q.indices_nodup
  have htail : q.tail ∉ q.pop.indices := (List.nodup_cons.mp hnd).1
  have hpop : (q.setSlot q.tail a).pop.toList = q.pop.toList := by
    refine List.map_congr_left fun j hj => ?_
    have hj' : j ∈ q.pop.indices := hj
    have hne : j ≠ q.tail := fun he => htail (he ▸ hj')
    have hslot : (q.setSlot q.tail a).pop.slot j = (q.setSlot q.tail a).slot j := rfl
    rw [hslot, slot_setSlot, if_neg hne]
    rfl
  refine ⟨?_, hpop⟩
  have he : (q.setSlot q.tail a).isEmpty = false := h
  rw [toList_pop _ he, hpop, slot_setSlot]
  congr 1
  exact if_pos rfl

/-- A push appends the old head. -/
theorem indices_push (q : RingQueue α n) (a : α) (h : q.isFull = false) :
    (q.push a).indices = q.indices ++ [q.head] := by
  have hne : next q.head ≠ q.tail := by
    intro he; simp [isFull, he] at h
  have hlt := dist_lt q.tail (next q.head)
  have hd := dist_next_right hne
  show indicesFrom n q.tail (next q.head) = indicesFrom n q.tail q.head ++ [q.head]
  rw [indicesFrom_fuel n q.tail (next q.head) (Nat.le_of_lt hlt), hd,
      indicesFrom_next_right _ _ _ hne (Nat.le_refl _),
      indicesFrom_fuel n q.tail q.head (by omega)]

/-- A push with room appends its element. -/
theorem toList_push (q : RingQueue α n) (a : α) (h : q.isFull = false) :
    (q.push a).toList = q.toList ++ [a] := by
  have hslot : ∀ j, (q.push a).slot j = (q.setSlot q.head a).slot j := fun _ => rfl
  rw [toList, indices_push q a h, List.map_append, toList]
  congr 1
  · refine List.map_congr_left fun j hj => ?_
    have hjh : j ≠ q.head := (mem_indicesFrom_dist _ _ _ _ hj).2
    rw [hslot, slot_setSlot, if_neg hjh]
  · simp [hslot]

/-- Searching the occupied indices for a slot is searching the list:
the index found splits the list at its first match, and writing the slot
replaces that element. -/
theorem find_indices (q : RingQueue α n) (p : α → Bool) (i : Fin n)
    (h : q.indices.find? (fun i => p (q.slot i)) = some i) :
    ∃ pre post, q.toList = pre ++ q.slot i :: post ∧ (∀ x ∈ pre, p x = false) ∧
      p (q.slot i) = true ∧ ∀ a, (q.setSlot i a).toList = pre ++ a :: post := by
  obtain ⟨hp, as, bs, hsplit, hpre⟩ := List.find?_eq_some_iff_append.mp h
  have hnd : (as ++ i :: bs).Nodup := hsplit ▸ q.indices_nodup
  obtain ⟨-, hnd2, hdisj⟩ := List.nodup_append.mp hnd
  have has : i ∉ as := fun hm => hdisj i hm i List.mem_cons_self rfl
  have hbs : i ∉ bs := (List.nodup_cons.mp hnd2).1
  refine ⟨as.map q.slot, bs.map q.slot, by rw [toList, hsplit]; simp, ?_, hp, fun a => ?_⟩
  · intro x hx
    obtain ⟨j, hj, rfl⟩ := List.mem_map.mp hx
    simpa using hpre j hj
  · have hmap : ∀ l : List (Fin n), i ∉ l → l.map (q.setSlot i a).slot = l.map q.slot := by
      intro l hl
      refine List.map_congr_left fun j hj => ?_
      have hji : j ≠ i := fun he => hl (he ▸ hj)
      rw [slot_setSlot, if_neg hji]
    rw [toList, indices_setSlot, hsplit, List.map_append, List.map_cons, hmap as has,
        hmap bs hbs, slot_setSlot, if_pos rfl]

/-- No occupied index matches exactly when no element does. -/
theorem find_indices_none (q : RingQueue α n) (p : α → Bool) :
    q.indices.find? (fun i => p (q.slot i)) = none ↔ ∀ x ∈ q.toList, p x = false := by
  rw [List.find?_eq_none, toList]
  simp

/-- A scan over the slots is one over the elements. -/
theorem any_indices (q : RingQueue α n) (p : α → Bool) :
    q.indices.any (fun i => p (q.slot i)) = q.toList.any p := by
  rw [toList, List.any_map]
  rfl

/-- The two indices. -/
def ends (q : RingQueue α n) : Fin n × Fin n := (q.head, q.tail)

/-- Whether a queue is empty depends on its ends only. -/
theorem isEmpty_of_ends {q q' : RingQueue α n} (h : q.ends = q'.ends) :
    q.isEmpty = q'.isEmpty := by
  obtain ⟨hh, ht⟩ := Prod.mk.inj h
  rw [isEmpty, isEmpty, hh, ht]

/-! ## Two arrays with the same queue -/

/-- The same indices, and the same contents of the occupied slots. -/
structure Same (q q' : RingQueue α n) : Prop where
  head : q.head = q'.head
  tail : q.tail = q'.tail
  slot : ∀ i ∈ q'.indices, q.slot i = q'.slot i

namespace Same

variable {q q' : RingQueue α n}

theorem indices (h : q.Same q') : q.indices = q'.indices := by
  rw [RingQueue.indices, h.head, h.tail]
  rfl

theorem isEmpty (h : q.Same q') : q.isEmpty = q'.isEmpty := by
  rw [RingQueue.isEmpty, h.head, h.tail]
  rfl

theorem isFull (h : q.Same q') : q.isFull = q'.isFull := by
  rw [RingQueue.isFull, h.head, h.tail]
  rfl

theorem toList (h : q.Same q') : q.toList = q'.toList := by
  rw [RingQueue.toList, h.indices]
  exact List.map_congr_left h.slot

theorem find (h : q.Same q') (p : α → Bool) :
    q.indices.find? (fun i => p (q.slot i)) = q'.indices.find? (fun i => p (q'.slot i)) := by
  rw [h.indices]
  exact List.find?_congr fun i hi => by rw [h.slot i hi]

theorem setSlot (h : q.Same q') (i : Fin n) (a : α) : (q.setSlot i a).Same (q'.setSlot i a) where
  head := h.head
  tail := h.tail
  slot j hj := by
    rw [slot_setSlot, slot_setSlot]
    split
    · rfl
    · exact h.slot j hj

theorem pop (h : q.Same q') (hne : q'.isEmpty = false) : q.pop.Same q'.pop where
  head := h.head
  tail := congrArg next h.tail
  slot j hj := h.slot j (by rw [indices_pop q' hne]; exact List.mem_cons_of_mem _ hj)

theorem push (h : q.Same q') (a : α) (hroom : q'.isFull = false) :
    (q.push a).Same (q'.push a) where
  head := congrArg next h.head
  tail := h.tail
  slot j hj := by
    have hq : (q.push a).slot j = (q.setSlot q.head a).slot j := rfl
    have hq' : (q'.push a).slot j = (q'.setSlot q'.head a).slot j := rfl
    rw [hq, hq', slot_setSlot, slot_setSlot, h.head]
    split
    · rfl
    · next hne =>
      rw [indices_push q' a hroom, List.mem_append, List.mem_singleton] at hj
      exact h.slot j (hj.resolve_right hne)

end Same

end RingQueue

end Ch583Kbd.Lib
