/-
Ch583Kbd.Rtt.Kservice — `rt_memset`, `rt_memcpy` and `rt_memmove` of
`kservice.c`.

`RT_USING_TINY_SIZE` is not defined, so the first two work in words of
four bytes where they can. An address is a `Nat`: no region reaches beyond
the address space. `int len = count` is compared with a `size_t`
everywhere, so it is as good as `count`.
-/
import Ch583Kbd.Lib.ByteMemory

namespace Ch583Kbd.Rtt

open Ch583Kbd.Lib

def sizeofLong : Nat := 4

/-- `UNALIGNED(X)`. -/
def unaligned (x : Nat) : Bool := x % sizeofLong ≠ 0

/-! ## `rt_memcpy` -/

/-- The local variables of `rt_memcpy`, and the memory. -/
structure Copy where
  memory : Memory
  dst : Nat
  src : Nat
  len : Nat

namespace Copy

/-- `*aligned_dst++ = *aligned_src++;`. -/
def word (c : Copy) : Copy :=
  { c with
    memory := c.memory.store c.dst sizeofLong (c.memory.load c.src sizeofLong)
    dst := c.dst + sizeofLong
    src := c.src + sizeofLong }

/-- "Copy 4X long words at a time if possible." -/
def bigBlocks (c : Copy) : Copy :=
  if 4 * sizeofLong ≤ c.len then
    { c.word.word.word.word with len := c.len - 4 * sizeofLong }.bigBlocks
  else c
termination_by c.len
decreasing_by simp only [sizeofLong] at *; omega

/-- "Copy one long word at a time if possible." -/
def words (c : Copy) : Copy :=
  if sizeofLong ≤ c.len then { c.word with len := c.len - sizeofLong }.words else c
termination_by c.len
decreasing_by simp only [sizeofLong] at *; omega

end Copy

/-- `while (len--) *dst_ptr++ = *src_ptr++;`. -/
def copyBytes (m : Memory) (dst src : Nat) : Nat → Memory
  | 0 => m
  | len + 1 => copyBytes (Function.update m dst (m src)) (dst + 1) (src + 1) len

def rtMemcpy (m : Memory) (dst src count : Nat) : Memory :=
  if 4 * sizeofLong ≤ count ∧ !(unaligned src || unaligned dst) then
    let c := (Copy.mk m dst src count).bigBlocks.words
    copyBytes c.memory c.dst c.src c.len
  else copyBytes m dst src count

/-! ## `rt_memmove` -/

/-- `while (n--) *(--tmp) = *(--s);`, with both pointers behind the last
byte. -/
def copyBack (m : Memory) (tmp s : Nat) : Nat → Memory
  | 0 => m
  | n + 1 => copyBack (Function.update m (tmp - 1) (m (s - 1))) (tmp - 1) (s - 1) n

def rtMemmove (m : Memory) (dest src n : Nat) : Memory :=
  if src < dest ∧ dest < src + n then copyBack m (dest + n) (src + n) n
  else copyBytes m dest src n

/-! ## `rt_memset` -/

structure Fill where
  memory : Memory
  addr : Nat
  count : Nat

/-- "Store D into each char sized location in BUFFER". -/
def fillBuffer (d : BitVec 8) : BitVec 32 :=
  let buffer := d.setWidth 32 <<< 8 ||| d.setWidth 32
  buffer ||| buffer <<< 16

namespace Fill

/-- `*aligned_addr++ = buffer;`. -/
def word (d : BitVec 8) (f : Fill) : Fill :=
  { f with
    memory := f.memory.store f.addr sizeofLong (fillBuffer d).toNat
    addr := f.addr + sizeofLong }

def bigBlocks (d : BitVec 8) (f : Fill) : Fill :=
  if sizeofLong * 4 ≤ f.count then
    bigBlocks d { (((f.word d).word d).word d).word d with count := f.count - 4 * sizeofLong }
  else f
termination_by f.count
decreasing_by simp only [sizeofLong] at *; omega

def words (d : BitVec 8) (f : Fill) : Fill :=
  if sizeofLong ≤ f.count then words d { f.word d with count := f.count - sizeofLong } else f
termination_by f.count
decreasing_by simp only [sizeofLong] at *; omega

end Fill

/-- `while (count--) *m++ = (char)d;`. -/
def fillBytes (m : Memory) (s : Nat) (d : BitVec 8) : Nat → Memory
  | 0 => m
  | count + 1 => fillBytes (Function.update m s d) (s + 1) d count

def rtMemset (m : Memory) (s : Nat) (c : BitVec 8) (count : Nat) : Memory :=
  if sizeofLong ≤ count ∧ !unaligned s then
    let f := ((Fill.mk m s count).bigBlocks c).words c
    fillBytes f.memory f.addr c f.count
  else fillBytes m s c count

/-! ## What they do -/

variable {m : Memory} {dst src n : Nat}

/-- The byte loop from the front moves the bytes, when the target does not lie
inside the source behind its start. -/
theorem copyBytes_eq (h : dst ≤ src ∨ src + n ≤ dst) :
    copyBytes m dst src n = m.move dst src n := by
  induction n generalizing m dst src with
  | zero => exact (Memory.move_zero m dst src).symm
  | succ n ih =>
    rw [copyBytes, ← Memory.move_one, ih (by omega), Memory.move_move (by omega), Nat.add_comm]

/-- The byte loop from the back moves the bytes, when the source does not lie
behind the target. -/
theorem copyBack_eq (h : src ≤ dst) : copyBack m (dst + n) (src + n) n = m.move dst src n := by
  induction n generalizing m with
  | zero => exact (Memory.move_zero m dst src).symm
  | succ n ih =>
    rw [copyBack, ← Memory.move_one, show dst + (n + 1) - 1 = dst + n by omega,
      show src + (n + 1) - 1 = src + n by omega, ih, Memory.move_back h]

/-- The byte loop of `rt_memset` fills. -/
theorem fillBytes_eq (d : BitVec 8) : fillBytes m dst d n = m.fill dst d n := by
  induction n generalizing m dst with
  | zero => exact (Memory.fill_zero m dst d).symm
  | succ n ih => rw [fillBytes, ← Memory.fill_one, ih, Memory.fill_fill, Nat.add_comm]

/-- So far `k` bytes of `n` have been copied. -/
structure Copied (m : Memory) (dst src n k : Nat) (c : Copy) : Prop where
  memory : c.memory = m.move dst src k
  dst : c.dst = dst + k
  src : c.src = src + k

/-- Copying one word copies the next four bytes. -/
theorem Copied.word {k : Nat} {c : Copy} (h : Copied m dst src n k c)
    (hforward : dst ≤ src ∨ src + n ≤ dst) (hk : k + sizeofLong ≤ n) :
    Copied m dst src n (k + sizeofLong) c.word where
  memory := by
    rw [Copy.word, Memory.store_load, h.memory, h.dst, h.src, Memory.move_move (by omega)]
  dst := by
    rw [Copy.word, h.dst, Nat.add_assoc]
  src := by
    rw [Copy.word, h.src, Nat.add_assoc]

theorem Copied.withLen {k : Nat} {c : Copy} (h : Copied m dst src n k c) (len : Nat) :
    Copied m dst src n k { c with len := len } := ⟨h.memory, h.dst, h.src⟩

/-- The loop over blocks of four words copies a number of bytes and counts them. -/
theorem copied_bigBlocks (hforward : dst ≤ src ∨ src + n ≤ dst) (c : Copy) {k : Nat}
    (h : Copied m dst src n k c) (hk : k + c.len = n) :
    ∃ k', Copied m dst src n k' c.bigBlocks ∧ k' + c.bigBlocks.len = n := by
  induction c using Copy.bigBlocks.induct generalizing k with
  | case1 c hlen ih =>
    rw [Copy.bigBlocks, if_pos hlen]
    simp only [sizeofLong] at hlen
    have h1 := h.word hforward (by simp only [sizeofLong]; omega)
    have h2 := h1.word hforward (by simp only [sizeofLong]; omega)
    have h3 := h2.word hforward (by simp only [sizeofLong]; omega)
    have h4 := h3.word hforward (by simp only [sizeofLong]; omega)
    exact ih (h4.withLen _) (by simp only [sizeofLong]; omega)
  | case2 c hlen =>
    rw [Copy.bigBlocks, if_neg hlen]
    exact ⟨k, h, hk⟩

/-- The loop over words copies a number of bytes and counts them. -/
theorem copied_words (hforward : dst ≤ src ∨ src + n ≤ dst) (c : Copy) {k : Nat}
    (h : Copied m dst src n k c) (hk : k + c.len = n) :
    ∃ k', Copied m dst src n k' c.words ∧ k' + c.words.len = n := by
  induction c using Copy.words.induct generalizing k with
  | case1 c hlen ih =>
    rw [Copy.words, if_pos hlen]
    simp only [sizeofLong] at hlen
    exact ih ((h.word hforward (by simp only [sizeofLong]; omega)).withLen _)
      (by simp only [sizeofLong]; omega)
  | case2 c hlen =>
    rw [Copy.words, if_neg hlen]
    exact ⟨k, h, hk⟩

/-- Words or bytes, the target gets the bytes of the source, if it does not
begin inside it. -/
theorem rtMemcpy_eq (h : dst ≤ src ∨ src + n ≤ dst) : rtMemcpy m dst src n = m.move dst src n := by
  unfold rtMemcpy
  split
  · obtain ⟨k, hbig, hk⟩ := copied_bigBlocks (m := m) h ⟨m, dst, src, n⟩
      ⟨(Memory.move_zero m dst src).symm, rfl, rfl⟩ (Nat.zero_add n)
    obtain ⟨k', hwords, hk'⟩ := copied_words h _ hbig hk
    dsimp only
    rw [hwords.memory, hwords.dst, hwords.src, copyBytes_eq (by omega),
      Memory.move_move (by omega), hk']
  · exact copyBytes_eq h

/-- **`rt_memmove` moves the bytes as they were**, for every overlap of the two
ranges. -/
theorem rtMemmove_eq (m : Memory) (dst src n : Nat) : rtMemmove m dst src n = m.move dst src n := by
  unfold rtMemmove
  split
  · next h => exact copyBack_eq (Nat.le_of_lt h.1)
  · next h => exact copyBytes_eq (by omega)

/-! ## Filling -/

/-- The word that is stored is four times the byte. -/
theorem toNat_fillBuffer (d : BitVec 8) :
    (fillBuffer d).toNat = Memory.load (fun _ => d) 0 sizeofLong := by
  revert d
  decide +kernel

/-- So far `k` bytes of `n` have been set. -/
structure Filled (m : Memory) (dst : Nat) (d : BitVec 8) (k : Nat) (f : Fill) : Prop where
  memory : f.memory = m.fill dst d k
  addr : f.addr = dst + k

variable {d : BitVec 8}

/-- Storing one word fills the next four bytes. -/
theorem Filled.word {k : Nat} {f : Fill} (h : Filled m dst d k f) :
    Filled m dst d (k + sizeofLong) (f.word d) where
  memory := by
    rw [Fill.word, toNat_fillBuffer, h.memory, h.addr, ← Memory.fill_fill]
    funext x
    exact Memory.store_load_apply (fun _ => d) _ _ _ _ x
  addr := by
    rw [Fill.word, h.addr, Nat.add_assoc]

theorem Filled.withCount {k : Nat} {f : Fill} (h : Filled m dst d k f) (count : Nat) :
    Filled m dst d k { f with count := count } := ⟨h.memory, h.addr⟩

/-- The loop over blocks of four words fills a number of bytes and counts them. -/
theorem filled_bigBlocks (f : Fill) {k : Nat} (h : Filled m dst d k f) (hk : k + f.count = n) :
    ∃ k', Filled m dst d k' (f.bigBlocks d) ∧ k' + (f.bigBlocks d).count = n := by
  induction f using Fill.bigBlocks.induct d generalizing k with
  | case1 f hcount ih =>
    rw [Fill.bigBlocks, if_pos hcount]
    simp only [sizeofLong] at hcount
    exact ih (h.word.word.word.word.withCount _) (by simp only [sizeofLong]; omega)
  | case2 f hcount =>
    rw [Fill.bigBlocks, if_neg hcount]
    exact ⟨k, h, hk⟩

/-- The loop over words fills a number of bytes and counts them. -/
theorem filled_words (f : Fill) {k : Nat} (h : Filled m dst d k f) (hk : k + f.count = n) :
    ∃ k', Filled m dst d k' (f.words d) ∧ k' + (f.words d).count = n := by
  induction f using Fill.words.induct d generalizing k with
  | case1 f hcount ih =>
    rw [Fill.words, if_pos hcount]
    simp only [sizeofLong] at hcount
    exact ih (h.word.withCount _) (by simp only [sizeofLong]; omega)
  | case2 f hcount =>
    rw [Fill.words, if_neg hcount]
    exact ⟨k, h, hk⟩

/-- **`rt_memset` fills the range**, for every address and length. -/
theorem rtMemset_eq (m : Memory) (s : Nat) (c : BitVec 8) (n : Nat) :
    rtMemset m s c n = m.fill s c n := by
  unfold rtMemset
  split
  · obtain ⟨k, hbig, hk⟩ := filled_bigBlocks (m := m) (d := c) ⟨m, s, n⟩
      ⟨(Memory.fill_zero m s c).symm, rfl⟩ (Nat.zero_add n)
    obtain ⟨k', hwords, hk'⟩ := filled_words _ hbig hk
    dsimp only
    rw [hwords.memory, hwords.addr, fillBytes_eq, Memory.fill_fill, hk']
  · exact fillBytes_eq c

/-- **The word loops.** `rt_memcpy` does what `rt_memmove` does unless the
target begins inside the source; `rt_memmove` moves the bytes for every
overlap; `rt_memset` sets all bytes of its range and no other. -/
theorem memory_functions (m : Memory) (dst src n : Nat) (c : BitVec 8) :
    (∀ x, rtMemmove m dst src n x = if dst ≤ x ∧ x < dst + n then m (src + (x - dst)) else m x) ∧
      (¬(src < dst ∧ dst < src + n) → rtMemcpy m dst src n = rtMemmove m dst src n) ∧
      ∀ x, rtMemset m dst c n x = if dst ≤ x ∧ x < dst + n then c else m x := by
  refine ⟨fun x => ?_, fun h => ?_, fun x => ?_⟩
  · rw [rtMemmove_eq]
    rfl
  · rw [rtMemcpy_eq (by omega), rtMemmove_eq]
  · rw [rtMemset_eq]
    rfl

end Ch583Kbd.Rtt
