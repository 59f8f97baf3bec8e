/-
Ch583Kbd.Lib.PageFlash — a memory that is erased by pages.

Erasing a range makes every page that meets it blank, programming stores
into the range itself. A section is rewritten by erasing its range and
programming its bytes, which costs its neighbours what they have on the
same pages. After several rewrites a cell holds what the last of them that
touched its page left there (`rewriteAll_apply`).
-/
import Mathlib.Data.List.Basic

namespace Ch583Kbd.Lib.PageFlash

variable {α : Type} {blank : α}

/-- How programming acts on a cell; an erased cell takes any value. -/
structure Cell (blank : α) where
  store : α → α → α
  store_blank : ∀ a, store blank a = a

/-- The page of `a` meets `[addr, addr + len)`. -/
def Touches (page addr len a : Nat) : Prop :=
  0 < len ∧ addr / page ≤ a / page ∧ a / page ≤ (addr + len - 1) / page

instance (page addr len a : Nat) : Decidable (Touches page addr len a) :=
  inferInstanceAs (Decidable (_ ∧ _))

def erase (blank : α) (page addr len : Nat) (flash : Nat → α) : Nat → α := fun a =>
  if Touches page addr len a then blank else flash a

def program (C : Cell blank) (addr : Nat) (bytes : List α) (flash : Nat → α) : Nat → α := fun a =>
  if addr ≤ a then (bytes[a - addr]?).elim (flash a) (C.store (flash a)) else flash a

structure Section (α : Type) where
  addr : Nat
  bytes : List α

/-- The byte that a section has for an address. -/
def Section.at? (sec : Section α) (a : Nat) : Option α :=
  if sec.addr ≤ a then sec.bytes[a - sec.addr]? else none

def Section.rewrite (C : Cell blank) (page : Nat) (flash : Nat → α) (sec : Section α) : Nat → α :=
  program C sec.addr sec.bytes (erase blank page sec.addr sec.bytes.length flash)

/-- What a rewrite leaves at an address. -/
def Section.leaves (blank : α) (page a : Nat) (v : α) (sec : Section α) : α :=
  if Touches page sec.addr sec.bytes.length a then (sec.at? a).getD blank else v

/-- A range touches its own addresses. -/
theorem touches_self {page addr len a : Nat} (h : addr ≤ a) (h' : a < addr + len) :
    Touches page addr len a :=
  ⟨by omega, Nat.div_le_div_right h, Nat.div_le_div_right (by omega)⟩

/-- A section touches every address it has a byte for. -/
theorem Section.touches_of_at {sec : Section α} {page a : Nat} {b : α}
    (h : sec.at? a = some b) : Touches page sec.addr sec.bytes.length a := by
  unfold Section.at? at h
  split at h
  · next hle =>
    obtain ⟨hlt, -⟩ := List.getElem?_eq_some_iff.mp h
    exact touches_self hle (by omega)
  · cases h

/-- The cells a rewrite does not touch keep their value, those of its pages
are blank but for its own range. -/
theorem Section.rewrite_apply (C : Cell blank) (page : Nat) (flash : Nat → α) (sec : Section α)
    (a : Nat) : sec.rewrite C page flash a = sec.leaves blank page a (flash a) := by
  have hprog : sec.rewrite C page flash a =
      (sec.at? a).elim (erase blank page sec.addr sec.bytes.length flash a)
        (C.store (erase blank page sec.addr sec.bytes.length flash a)) := by
    unfold Section.rewrite program Section.at?
    split <;> rfl
  rw [hprog]
  unfold Section.leaves
  cases hat : sec.at? a with
  | none => rfl
  | some b =>
    have ht : Touches page sec.addr sec.bytes.length a := Section.touches_of_at hat
    simp [erase, ht, C.store_blank]

/-- **After several rewrites** each address has what they leave there, one
after the other. -/
theorem rewriteAll_apply (C : Cell blank) (page : Nat) (secs : List (Section α)) (a : Nat) :
    ∀ flash : Nat → α, secs.foldl (Section.rewrite C page) flash a =
      secs.foldl (Section.leaves blank page a) (flash a) := by
  induction secs with
  | nil => exact fun flash => rfl
  | cons sec secs ih =>
    intro flash
    rw [List.foldl_cons, List.foldl_cons, ih, Section.rewrite_apply]

end Ch583Kbd.Lib.PageFlash
