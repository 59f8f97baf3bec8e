/-
Ch583Kbd.Lib.Block — copying bytes into and out of a block of fixed size.

What can be read from a pointer on is a partial function from indices to
values (`fetch`). A copy that reads past its source or touches a value
outside the block is a fault, never a shorter copy.
-/
import Mathlib.Data.List.Basic

namespace Ch583Kbd.Lib.Block

variable {α : Type} {n : Nat}

inductive Fault where
  | source | block
  deriving DecidableEq, Repr

theorem map_ok {β : Type} {x : Except Fault α} {f : α → β} {b : β} (h : x.map f = .ok b) :
    ∃ a, x = .ok a ∧ f a = b := by
  cases x with
  | error fault => cases h
  | ok a => exact ⟨a, rfl, Except.ok.inj h⟩

theorem bind_ok {β : Type} {x : Except Fault α} {f : α → Except Fault β} {b : β}
    (h : x >>= f = .ok b) : ∃ a, x = .ok a ∧ f a = .ok b := by
  cases x with
  | error fault => cases h
  | ok a => exact ⟨a, rfl, h⟩

/-- The first `len` values behind a pointer, when all of them can be read. -/
def fetch (m : Nat → Option α) : Nat → Option (List α)
  | 0 => some []
  | len + 1 => (fetch m len).bind fun l => (m len).map fun a => l ++ [a]

/-- Put a list over the block from `off` on. -/
def write (b : Vector α n) (off : Nat) (l : List α) : Vector α n :=
  Vector.ofFn fun i => if off ≤ i then l[i.val - off]?.getD b[i] else b[i]

def slice (b : Vector α n) (off len : Nat) : List α := (b.toList.drop off).take len

/-- `memcpy(&block[off], m, len)`. -/
def copyIn (b : Vector α n) (off : Nat) (m : Nat → Option α) (len : Nat) :
    Except Fault (Vector α n) :=
  match fetch m len with
  | none => .error .source
  | some l => if len = 0 ∨ off + len ≤ n then .ok (write b off l) else .error .block

/-- `memcpy(.., &block[off], len)`. -/
def copyOut (b : Vector α n) (off len : Nat) : Except Fault (List α) :=
  if len = 0 ∨ off + len ≤ n then .ok (slice b off len) else .error .block

/-! ## Fetching -/

/-- Memory that can be read everywhere. -/
@[simp] theorem fetch_total (f : Nat → α) (len : Nat) :
    fetch (fun i => some (f i)) len = some ((List.range len).map f) := by
  induction len with
  | zero => rfl
  | succ len ih => rw [fetch, ih, List.range_succ]; simp

/-- A fetch succeeds exactly if everything in its range can be read. -/
theorem fetch_isSome_iff (m : Nat → Option α) (len : Nat) :
    (∃ l, fetch m len = some l) ↔ ∀ i, i < len → ∃ a, m i = some a := by
  induction len with
  | zero => exact iff_of_true ⟨[], rfl⟩ fun i hi => absurd hi (Nat.not_lt_zero i)
  | succ len ih =>
    constructor
    · rintro ⟨l, hl⟩ i hi
      obtain ⟨front, hfront, hlast⟩ := Option.bind_eq_some_iff.mp hl
      obtain ⟨a, ha, -⟩ := Option.map_eq_some_iff.mp hlast
      rcases Nat.lt_succ_iff_lt_or_eq.mp hi with hlt | rfl
      · exact ih.mp ⟨front, hfront⟩ i hlt
      · exact ⟨a, ha⟩
    · intro hall
      obtain ⟨front, hfront⟩ := ih.mpr fun i hi => hall i (Nat.lt_succ_of_lt hi)
      obtain ⟨a, ha⟩ := hall len (Nat.lt_succ_self len)
      exact ⟨front ++ [a], by simp [fetch, hfront, ha]⟩

/-! ## The block after a write -/

/-- A written block has the bytes of the list in the range, and its own
elsewhere. -/
theorem getElem_write (b : Vector α n) (off : Nat) (l : List α) (i : Nat) (h : i < n) :
    (write b off l)[i] = if off ≤ i then l[i - off]?.getD b[i] else b[i] := by
  simp [write]

/-- Outside the range that is written nothing changes. -/
theorem getElem_write_outside (b : Vector α n) {off : Nat} {l : List α} {i : Nat} (h : i < n)
    (hi : i < off ∨ off + l.length ≤ i) : (write b off l)[i] = b[i] := by
  rw [getElem_write b off l i h]
  split
  · next hoff =>
    rw [List.getElem?_eq_none (by omega)]
    rfl
  · rfl

/-- Inside the range that is written stands the list. -/
theorem getElem_write_inside (b : Vector α n) {off : Nat} {l : List α} {i : Nat} (h : i < n)
    (hoff : off ≤ i) (hi : i - off < l.length) : (write b off l)[i] = l[i - off] := by
  rw [getElem_write b off l i h, if_pos hoff, List.getElem?_eq_getElem hi]
  rfl

@[simp] theorem write_nil (b : Vector α n) (off : Nat) : write b off [] = b := by
  ext i hi
  exact getElem_write_outside b hi (by simp; omega)

@[simp] theorem length_slice (b : Vector α n) {off len : Nat} (h : off + len ≤ n) :
    (slice b off len).length = len := by
  simp [slice]
  omega

/-- A slice inside the block reads its bytes. -/
theorem getElem_slice (b : Vector α n) {off len i : Nat} (h : off + len ≤ n)
    (hi : i < len) : (slice b off len)[i]? = some b[off + i] := by
  rw [List.getElem?_eq_getElem (by rwa [length_slice b h])]
  simp [slice]

/-- What was written is read back. -/
theorem slice_write (b : Vector α n) {off : Nat} {l : List α} (h : off + l.length ≤ n) :
    slice (write b off l) off l.length = l := by
  apply List.ext_getElem?
  intro i
  by_cases hi : i < l.length
  · rw [getElem_slice _ h hi, getElem_write_inside b _ (Nat.le_add_right off i) (by omega),
      List.getElem?_eq_getElem hi]
    simp
  · rw [List.getElem?_eq_none (by rw [length_slice _ h]; omega), List.getElem?_eq_none (by omega)]

/-- A write changes nothing exactly if the list stands there already. -/
theorem write_eq_self_iff (b : Vector α n) {off : Nat} {l : List α} (h : off + l.length ≤ n) :
    write b off l = b ↔ slice b off l.length = l := by
  constructor
  · intro heq
    have hread := slice_write b h
    rwa [heq] at hread
  · intro heq
    ext i hi
    by_cases hin : off ≤ i ∧ i < off + l.length
    · have hlt : i - off < l.length := by omega
      rw [getElem_write_inside b hi hin.1 hlt]
      have hget := getElem_slice b h hlt
      rw [heq, List.getElem?_eq_getElem hlt] at hget
      rw [Option.some.inj hget]
      congr 1
      omega
    · exact getElem_write_outside b hi (by omega)

/-! ## Chunks -/

def chunk (size k : Nat) (l : List α) : List α := (l.drop (size * k)).take size

theorem length_chunk (size k : Nat) (l : List α) :
    (chunk size k l).length = min size (l.length - size * k) := by
  simp [chunk]

/-- The chunks of a list, put together again. -/
theorem flatMap_chunk (size : Nat) (l : List α) (count : Nat) :
    ((List.range count).flatMap fun k => chunk size k l) = l.take (size * count) := by
  induction count with
  | zero => simp
  | succ count ih =>
    rw [List.range_succ, List.flatMap_append, ih, Nat.mul_succ, List.take_add]
    simp [chunk]

/-- A value of a list lies in the chunk of its index. -/
theorem getElem?_chunk {size : Nat} (hsize : 0 < size) (l : List α) (i : Nat) :
    (chunk size (i / size) l)[i - size * (i / size)]? = l[i]? := by
  have hdiv := Nat.div_add_mod i size
  have hmod := Nat.mod_lt i hsize
  rw [chunk, List.getElem?_take_of_lt (by omega), List.getElem?_drop]
  congr 1
  omega

/-! ## Copies -/

theorem copyOut_ok (b : Vector α n) {off len : Nat} (h : off + len ≤ n) :
    copyOut b off len = .ok (slice b off len) := if_pos (Or.inr h)

end Ch583Kbd.Lib.Block
