/-
Ch583Kbd.Rtt.Mem — the small memory manager (`mem.c`).

The heap is a region of the byte memory, and the headers of its blocks are
in it: `magic` and `used` of two bytes each, `next` and `prev` of four.
`heap_end` and `lfree`, pointers to headers in the source, are offsets
from `heap_ptr` here, as `next` and `prev` are there. The pointers that a
client gets are addresses, 0 is `RT_NULL`.

`rt_size_t` has 32 bits: rounding up wraps (`rtAlign`), and so do the
differences (`sub32`). The sums are of offsets within the heap.

Left out are the heap semaphore, the debug output and the hooks.
`RT_ASSERT` is empty in this build, and a bad data block is reported but
freed all the same. The loops over the chain have fuel: `none` is a loop
that does not end within it.
-/
import Ch583Kbd.Rtt.Kservice

namespace Ch583Kbd.Rtt

open Ch583Kbd.Lib

def rtAlignSize : Nat := 4

/-- `RT_ALIGN(size, RT_ALIGN_SIZE)`. -/
def rtAlign (size : Nat) : Nat := (size + (rtAlignSize - 1)) % 2 ^ 32 / rtAlignSize * rtAlignSize

/-- `RT_ALIGN_DOWN(size, RT_ALIGN_SIZE)`. -/
def rtAlignDown (size : Nat) : Nat := size / rtAlignSize * rtAlignSize

/-- The difference of two `rt_size_t`. -/
def sub32 (a b : Nat) : Nat := (a + 2 ^ 32 - b) % 2 ^ 32

def heapMagic : Nat := 0x1EA0

def minSize : Nat := 12

def minSizeAligned : Nat := 12

/-- `SIZEOF_STRUCT_MEM`. -/
def sizeofStructMem : Nat := 12

/-- The static variables of `mem.c`, and the memory. -/
structure Heap where
  memory : Memory
  heapPtr : Nat
  heapEnd : Nat
  memSizeAligned : Nat
  lfree : Nat
  usedMem : Nat := 0
  maxMem : Nat := 0

namespace Heap

/-! ## Headers -/

variable (h : Heap) (p v : Nat)

def magic : Nat := h.memory.load (h.heapPtr + p) 2
def used : Nat := h.memory.load (h.heapPtr + p + 2) 2
def next : Nat := h.memory.load (h.heapPtr + p + 4) 4
def prev : Nat := h.memory.load (h.heapPtr + p + 8) 4

def setMagic : Heap := { h with memory := h.memory.store (h.heapPtr + p) 2 v }
def setUsed : Heap := { h with memory := h.memory.store (h.heapPtr + p + 2) 2 v }
def setNext : Heap := { h with memory := h.memory.store (h.heapPtr + p + 4) 4 v }
def setPrev : Heap := { h with memory := h.memory.store (h.heapPtr + p + 8) 4 v }

/-! ## `plug_holes` -/

/-- "plug hole forward". -/
def plugForward (h : Heap) (mem : Nat) : Heap :=
  let nmem := h.next mem
  if mem ≠ nmem ∧ h.used nmem = 0 ∧ nmem ≠ h.heapEnd then
    let h1 := if h.lfree = nmem then { h with lfree := mem } else h
    let h2 := h1.setNext mem (h1.next nmem)
    h2.setPrev (h2.next nmem) mem
  else h

/-- "plug hole backward". -/
def plugBackward (h : Heap) (mem : Nat) : Heap :=
  let pmem := h.prev mem
  if pmem ≠ mem ∧ h.used pmem = 0 then
    let h1 := if h.lfree = mem then { h with lfree := pmem } else h
    let h2 := h1.setNext pmem (h1.next mem)
    h2.setPrev (h2.next mem) pmem
  else h

def plugHoles (h : Heap) (mem : Nat) : Heap := (h.plugForward mem).plugBackward mem

/-! ## The block that is cut in two -/

/-- "create mem2 struct" "and insert it between mem and mem->next". -/
def insertMem2 (h : Heap) (ptr ptr2 : Nat) : Heap :=
  let h1 := (h.setMagic ptr2 heapMagic).setUsed ptr2 0
  let h2 := h1.setNext ptr2 (h1.next ptr)
  (h2.setPrev ptr2 ptr).setNext ptr ptr2

/-- The back link behind `mem2`. -/
def linkMem2 (h : Heap) (ptr2 : Nat) : Heap :=
  if h.next ptr2 ≠ h.memSizeAligned + sizeofStructMem then h.setPrev (h.next ptr2) ptr2 else h

/-- "`used_mem += …; if (max_mem < used_mem) max_mem = used_mem;`". -/
def addUsedMem (h : Heap) (n : Nat) : Heap :=
  { h with usedMem := h.usedMem + n, maxMem := max h.maxMem (h.usedMem + n) }

/-! ## `rt_malloc` -/

/-- The search from `ptr` on. -/
def findFree (h : Heap) (size : Nat) : Nat → Nat → Option (Option Nat)
  | 0, _ => none
  | fuel + 1, ptr =>
    if ptr < sub32 h.memSizeAligned size then
      if h.used ptr = 0 ∧ size ≤ sub32 (h.next ptr) (ptr + sizeofStructMem) then some (some ptr)
      else h.findFree size fuel (h.next ptr)
    else some none

/-- "Find next free block after mem and update lowest free pointer". -/
def nextFree (h : Heap) : Nat → Nat → Option Nat
  | 0, _ => none
  | fuel + 1, p =>
    if h.used p ≠ 0 ∧ p ≠ h.heapEnd then h.nextFree fuel (h.next p) else some p

/-- What is done with the block that was found, up to "set memory block
magic". -/
def takeBlock (h : Heap) (ptr size : Nat) : Heap :=
  if size + sizeofStructMem + minSizeAligned ≤ sub32 (h.next ptr) (ptr + sizeofStructMem) then
    let ptr2 := ptr + sizeofStructMem + size
    ((((h.insertMem2 ptr ptr2).setUsed ptr 1).linkMem2 ptr2).addUsedMem
      (size + sizeofStructMem)).setMagic ptr heapMagic
  else
    let h1 := h.setUsed ptr 1
    (h1.addUsedMem (sub32 (h1.next ptr) ptr)).setMagic ptr heapMagic

/-- "if (mem == lfree)", and the pointer that is returned. -/
def allocated (h : Heap) (ptr : Nat) : Option (Nat × Heap) :=
  if ptr = h.lfree then
    (h.nextFree h.memSizeAligned h.lfree).map fun lfree =>
      (h.heapPtr + ptr + sizeofStructMem, { h with lfree := lfree })
  else some (h.heapPtr + ptr + sizeofStructMem, h)

def rtMalloc (h : Heap) (size : Nat) : Option (Nat × Heap) :=
  if size = 0 then some (0, h)
  else
    let size := rtAlign size
    if size > h.memSizeAligned then some (0, h)
    else
      let size := if size < minSizeAligned then minSizeAligned else size
      match h.findFree size h.memSizeAligned h.lfree with
      | none => none
      | some none => some (0, h)
      | some (some ptr) => (h.takeBlock ptr size).allocated ptr

/-! ## `rt_free` -/

/-- A block has become free: "if (mem < lfree) lfree = mem;". -/
def lowerFree (h : Heap) (mem : Nat) : Heap := if mem < h.lfree then { h with lfree := mem } else h

/-- The address is not one of the heap. -/
def illegal (h : Heap) (rmem : Nat) : Prop := rmem < h.heapPtr ∨ h.heapPtr + h.heapEnd ≤ rmem

instance (rmem : Nat) : Decidable (h.illegal rmem) := inferInstanceAs (Decidable (_ ∨ _))

def rtFree (h : Heap) (rmem : Nat) : Heap :=
  if rmem = 0 then h
  else if h.illegal rmem then h
  else
    let mem := rmem - h.heapPtr - sizeofStructMem
    let h1 := (h.setUsed mem 0).setMagic mem heapMagic
    let h2 := h1.lowerFree mem
    let h3 := { h2 with usedMem := sub32 h2.usedMem (sub32 (h2.next mem) mem) }
    h3.plugHoles mem

/-! ## `rt_realloc` and `rt_calloc` -/

/-- "split memory block". -/
def shrink (h : Heap) (ptr size newsize : Nat) : Heap :=
  let h1 := { h with usedMem := sub32 h.usedMem (size - newsize) }
  let ptr2 := ptr + sizeofStructMem + newsize
  let h2 := (h1.insertMem2 ptr ptr2).linkMem2 ptr2
  (h2.lowerFree ptr2).plugHoles ptr2

def rtRealloc (h : Heap) (rmem newsize : Nat) : Option (Nat × Heap) :=
  let newsize := rtAlign newsize
  if newsize > h.memSizeAligned then some (0, h)
  else if newsize = 0 then some (0, h.rtFree rmem)
  else if rmem = 0 then h.rtMalloc newsize
  else if h.illegal rmem then some (rmem, h)
  else
    let ptr := rmem - h.heapPtr - sizeofStructMem
    let size := sub32 (sub32 (h.next ptr) ptr) sizeofStructMem
    if size = newsize then some (rmem, h)
    else if newsize + sizeofStructMem + minSize < size then some (rmem, h.shrink ptr size newsize)
    else
      (h.rtMalloc newsize).map fun (nmem, h1) =>
        if nmem ≠ 0 then
          let count := if size < newsize then size else newsize
          (nmem, { h1 with memory := rtMemcpy h1.memory nmem rmem count }.rtFree rmem)
        else (nmem, h1)

def rtCalloc (h : Heap) (count size : Nat) : Option (Nat × Heap) :=
  let total := count * size % 2 ^ 32
  (h.rtMalloc total).map fun (p, h1) =>
    if p ≠ 0 then (p, { h1 with memory := rtMemset h1.memory p 0 total }) else (p, h1)

end Heap

/-! ## `rt_system_heap_init` -/

def rtSystemHeapInit (memory : Memory) (beginAddr endAddr : Nat) : Option Heap :=
  let beginAlign := rtAlign beginAddr
  let endAlign := rtAlignDown endAddr
  if endAlign > 2 * sizeofStructMem ∧ endAlign - 2 * sizeofStructMem ≥ beginAlign then
    let size := endAlign - beginAlign - 2 * sizeofStructMem
    let mem := 0
    let heapEnd := size + sizeofStructMem
    let h : Heap := ⟨memory, beginAlign, heapEnd, size, mem, 0, 0⟩
    let h1 := (((h.setMagic mem heapMagic).setNext mem heapEnd).setPrev mem 0).setUsed mem 0
    some ((((h1.setMagic heapEnd heapMagic).setUsed heapEnd 1).setNext heapEnd heapEnd).setPrev
      heapEnd heapEnd)
  else none

end Ch583Kbd.Rtt
