/-
Ch583Kbd.Lib.ByteMemory — a memory of bytes, with numbers of several bytes
in it, the least significant byte first.

`store` then `load` at the same place gives the number back
(`load_store`); elsewhere nothing changes (`store_other`), and a `load`
depends on its own bytes only (`load_congr`). A number that is loaded and
stored moves its bytes (`store_load`).
-/
import Mathlib.Algebra.Group.Nat.Defs
import Mathlib.Logic.Function.Basic
import Mathlib.Data.List.Basic

namespace Ch583Kbd.Lib

abbrev Memory := Nat → BitVec 8

namespace Memory

/-- The number in the `n` bytes from `a` on. -/
def load (m : Memory) (a : Nat) : Nat → Nat
  | 0 => 0
  | n + 1 => (m a).toNat + 256 * load m (a + 1) n

/-- Put a number into the `n` bytes from `a` on. -/
def store (m : Memory) (a : Nat) : Nat → Nat → Memory
  | 0, _ => m
  | n + 1, v => store (Function.update m a (BitVec.ofNat 8 v)) (a + 1) n (v / 256)

/-- The bytes from `a` on. -/
def peek (m : Memory) (a n : Nat) : List (BitVec 8) := (List.range n).map fun i => m (a + i)

/-- The memory after the bytes have been copied. -/
def move (m : Memory) (dst src n : Nat) : Memory := fun x =>
  if dst ≤ x ∧ x < dst + n then m (src + (x - dst)) else m x

/-- The memory after the bytes have been set. -/
def fill (m : Memory) (dst : Nat) (b : BitVec 8) (n : Nat) : Memory := fun x =>
  if dst ≤ x ∧ x < dst + n then b else m x

variable {m m' : Memory} {a b n v x : Nat}

/-! ## Numbers -/

/-- Storing a number leaves the bytes beside it. -/
theorem store_other (h : x < a ∨ a + n ≤ x) : store m a n v x = m x := by
  induction n generalizing m a v with
  | zero => rfl
  | succ n ih =>
    rw [store, ih (by omega), Function.update_of_ne]
    omega

/-- A number depends on its own bytes only. -/
theorem load_congr (h : ∀ i, i < n → m' (b + i) = m (a + i)) : load m' b n = load m a n := by
  induction n generalizing a b with
  | zero => rfl
  | succ n ih =>
    have hfirst : m' b = m a := h 0 (Nat.succ_pos n)
    have hrest : ∀ i, i < n → m' (b + 1 + i) = m (a + 1 + i) := by
      intro i hi
      have hnext := h (i + 1) (Nat.succ_lt_succ hi)
      rwa [show b + (i + 1) = b + 1 + i by omega, show a + (i + 1) = a + 1 + i by omega] at hnext
    rw [load, load, hfirst, ih hrest]

/-- A number survives what is stored beside it. -/
theorem load_store_other {k : Nat} (h : b + n ≤ a ∨ a + k ≤ b) :
    load (store m a k v) b n = load m b n :=
  load_congr fun i hi => store_other (by omega)

/-- A number that fits is read back. -/
theorem load_store (hv : v < 256 ^ n) : load (store m a n v) a n = v := by
  induction n generalizing m a v with
  | zero =>
    rw [Nat.pow_zero] at hv
    exact (Nat.lt_one_iff.mp hv).symm
  | succ n ih =>
    have hhigh : v / 256 < 256 ^ n := Nat.div_lt_of_lt_mul (by rwa [Nat.pow_succ'] at hv)
    have hlow : store (Function.update m a (BitVec.ofNat 8 v)) (a + 1) n (v / 256) a =
        BitVec.ofNat 8 v := by
      rw [store_other (.inl (Nat.lt_succ_self a)), Function.update_self]
    rw [load, store, ih hhigh, hlow, BitVec.toNat_ofNat]
    omega

/-- Loading a number and storing it elsewhere copies its bytes. -/
theorem store_load_apply (m m' : Memory) (dst src n x : Nat) : store m' dst n (load m src n) x =
    if dst ≤ x ∧ x < dst + n then m (src + (x - dst)) else m' x := by
  induction n generalizing m' dst src with
  | zero => rw [store, if_neg (by omega)]
  | succ n ih =>
    have hlt := (m src).isLt
    have hhigh : load m src (n + 1) / 256 = load m (src + 1) n := by
      rw [load]
      omega
    have hlow : BitVec.ofNat 8 (load m src (n + 1)) = m src := by
      refine BitVec.eq_of_toNat_eq ?_
      rw [load, BitVec.toNat_ofNat]
      omega
    rw [store, hhigh, ih, hlow]
    by_cases hx : x = dst
    · subst hx
      rw [if_neg (by omega), Function.update_self, if_pos (by omega), Nat.sub_self, Nat.add_zero]
    · rw [Function.update_of_ne hx]
      by_cases hin : dst ≤ x ∧ x < dst + (n + 1)
      · rw [if_pos hin, if_pos (by omega), show src + 1 + (x - (dst + 1)) = src +
          (x - dst) by omega]
      · rw [if_neg hin, if_neg (by omega)]

/-- Loading and storing a number moves its bytes, wherever they are. -/
theorem store_load (m : Memory) (dst src n : Nat) :
    store m dst n (load m src n) = move m dst src n :=
  funext fun x => store_load_apply m m dst src n x

/-! ## Moving and filling in parts -/

@[simp] theorem move_zero (m : Memory) (dst src : Nat) : move m dst src 0 = m := by
  funext x
  exact if_neg (by omega)

theorem move_one (m : Memory) (dst src : Nat) :
    move m dst src 1 = Function.update m dst (m src) := by
  funext x
  by_cases hx : x = dst
  · subst hx
    simp [move]
  · rw [Function.update_of_ne hx, move, if_neg (by omega)]

/-- Front to back, if the target does not reach into what is still to be
read. -/
theorem move_move {dst src k j : Nat} (h : dst ≤ src ∨ src + k + j ≤ dst) :
    move (move m dst src k) (dst + k) (src + k) j = move m dst src (k + j) := by
  funext x
  simp only [move]
  by_cases hlate : dst + k ≤ x ∧ x < dst + k + j
  · rw [if_pos hlate, if_neg (by omega), if_pos (by omega)]
    congr 1
    omega
  · rw [if_neg hlate]
    exact if_congr (by omega) rfl rfl

/-- Back to front, if the target is the later one. -/
theorem move_back {dst src k j : Nat} (h : src ≤ dst) :
    move (move m (dst + k) (src + k) j) dst src k = move m dst src (k + j) := by
  funext x
  simp only [move]
  by_cases hearly : dst ≤ x ∧ x < dst + k
  · rw [if_pos hearly, if_neg (by omega), if_pos (by omega)]
  · rw [if_neg hearly]
    by_cases hlate : dst + k ≤ x ∧ x < dst + k + j
    · rw [if_pos hlate, if_pos (by omega)]
      congr 1
      omega
    · rw [if_neg hlate, if_neg (by omega)]

@[simp] theorem fill_zero (m : Memory) (dst : Nat) (b : BitVec 8) : fill m dst b 0 = m := by
  funext x
  exact if_neg (by omega)

theorem fill_one (m : Memory) (dst : Nat) (b : BitVec 8) :
    fill m dst b 1 = Function.update m dst b := by
  funext x
  by_cases hx : x = dst
  · subst hx
    simp [fill]
  · rw [Function.update_of_ne hx, fill, if_neg (by omega)]

/-- Two fills in a row are one. -/
theorem fill_fill (m : Memory) (dst k j : Nat) (b : BitVec 8) :
    fill (fill m dst b k) (dst + k) b j = fill m dst b (k + j) := by
  funext x
  simp only [fill]
  by_cases hlate : dst + k ≤ x ∧ x < dst + k + j
  · rw [if_pos hlate, if_pos (by omega)]
  · rw [if_neg hlate]
    exact if_congr (by omega) rfl rfl

/-! ## Bytes -/

@[simp] theorem length_peek (m : Memory) (a n : Nat) : (peek m a n).length = n := by
  simp [peek]

/-- What is seen from `a` on depends on those bytes only. -/
theorem peek_congr (h : ∀ i, i < n → m' (b + i) = m (a + i)) : peek m' b n = peek m a n := by
  refine List.map_congr_left fun i hi => ?_
  exact h i (List.mem_range.mp hi)

/-- The bytes from `a` on, if the first ones are known. -/
theorem peek_eq_append {l : List (BitVec 8)} {k : Nat}
    (h : ∀ i, i < k → (hi : i < l.length) → m (a + i) = l[i]) :
    peek m a k = l.take k ++ peek m (a + l.length) (k - l.length) := by
  refine List.ext_getElem (by simp; omega) fun i hi hi' => ?_
  rw [length_peek] at hi
  rw [List.getElem_append]
  split
  · next hlt =>
    rw [List.length_take] at hlt
    rw [List.getElem_take, ← h i hi (by omega)]
    simp [peek]
  · next hge =>
    rw [List.length_take] at hge
    simp only [peek, List.getElem_map, List.getElem_range, List.length_take]
    congr 1
    omega

/-- A list is seen at `a` when each of its bytes is there. -/
theorem peek_eq_iff {l : List (BitVec 8)} (hl : l.length = n) :
    peek m a n = l ↔ ∀ i, (h : i < l.length) → m (a + i) = l[i] := by
  subst hl
  constructor
  · intro h i hi
    have hget := congrArg (·[i]?) h
    simpa [peek, hi] using hget
  · intro h
    refine List.ext_getElem (length_peek m a _) fun i hi hi' => ?_
    rw [← h i hi']
    simp [peek]

end Memory

end Ch583Kbd.Lib
