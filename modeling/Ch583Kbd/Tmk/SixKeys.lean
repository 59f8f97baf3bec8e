/-
Ch583Kbd.Tmk.SixKeys — runs of `add_key`, `del_key` and `clear_keys` in
6KRO mode.

Without `clear_keys` the ring refines the list of the six most recent
keys. `clear_keys` zeroes the key bytes and leaves `cb_head`, `cb_tail`
and `cb_count` alone, so the ring stays coherent only if no key was held
when it was called.
-/
import Ch583Kbd.Tmk.KeyReportTheorems

namespace Ch583Kbd.Tmk

open Ch583Kbd.Lib

abbrev KeyCode := { code : BitVec 8 // code ≠ 0 }

inductive KeyOp where
  | add (code : KeyCode)
  | del (code : KeyCode)
  deriving DecidableEq

inductive KeyCall where
  | key (op : KeyOp)
  | clear
  deriving DecidableEq

namespace KeyOp

def apply (s : ActionState) : KeyOp → ActionState
  | .add code => s.addKey code
  | .del code => s.delKey code

/-- The operation on the ring, with the loops on their fuel. -/
def ring? (r : KeyReport) : KeyOp → Option KeyReport
  | .add code => r.addKeyByte? code
  | .del code => r.delKeyByte? code

/-- What the operation means for the list of held keys. -/
def onList (l : List (BitVec 8)) : KeyOp → List (BitVec 8)
  | .add code => recent 6 l code
  | .del code => l.erase code

/-- The code is in the report after `add_key`, and not after `del_key`. -/
def Effect (r : KeyReport) : KeyOp → Prop
  | .add code => ∃ i < 6, r.key i = code.val
  | .del code => ∀ i < 6, r.key i ≠ code.val

end KeyOp

def KeyCall.apply (s : ActionState) : KeyCall → ActionState
  | .key op => op.apply s
  | .clear => s.clearKeys

def runKeys (calls : List KeyCall) (s : ActionState) : ActionState := calls.foldl KeyCall.apply s

namespace KeyReport

/-- `keys[0..5]` read circularly from `cb_head`, skipping zero slots. -/
def circular (r : KeyReport) : List (BitVec 8) :=
  ((List.range 6).map fun p => r.key ((r.cbHead + p) % 6)).filter (· != 0#8)

/-- How many slots the circular segment `[cb_head, cb_tail)` has. -/
def segmentLength (r : KeyReport) : Nat :=
  if r.cbTail = r.cbHead then (if r.cbCount = 0 then 0 else 6)
  else (r.cbTail + 6 - r.cbHead) % 6

structure Coherent (r : KeyReport) : Prop where
  count : r.cbCount.toNat = (List.range 6).countP fun i => r.key i != 0#8
  inside : ∀ i < 6, r.key i ≠ 0 → ∃ p < r.segmentLength, i = (r.cbHead + p) % 6

def NoKey (r : KeyReport) : Prop := ∀ i < 6, r.key i = 0

/-! ## What the invariant says about the report -/

theorem Rep.length_fill {r : KeyReport} {xs : List (BitVec 8)} (h : Rep r xs) :
    (xs ++ List.replicate (6 - xs.length) 0#8).length = 6 := by
  have hfits := h.fits
  rw [List.length_append, List.length_replicate]
  omega

/-- Read around from the head, the ring has the held codes in order. -/
theorem Rep.circular {r : KeyReport} {xs : List (BitVec 8)} (h : Rep r xs) :
    r.circular = held xs := by
  have hmap := h.slots.eq_map
  rw [h.length_fill] at hmap
  rw [KeyReport.circular, hmap]
  exact (held_append _ _).trans (by rw [held_replicate, List.append_nil])

/-- The six slots are those in use and zeros. -/
theorem Rep.perm {r : KeyReport} {xs : List (BitVec 8)} (h : Rep r xs) :
    ((List.range 6).map r.key).Perm (xs ++ List.replicate (6 - xs.length) 0#8) :=
  h.slots.perm h.length_fill

/-- A code is in one of the six slots if it is held. -/
theorem Rep.mem_slots {r : KeyReport} {xs : List (BitVec 8)} (h : Rep r xs) {code : BitVec 8}
    (hc : code ≠ 0#8) : (∃ i < 6, r.key i = code) ↔ code ∈ held xs := by
  have hmem := h.perm.mem_iff (a := code)
  rw [List.mem_map, List.mem_append, List.mem_replicate] at hmem
  rw [mem_held hc]
  constructor
  · rintro ⟨i, hi, he⟩
    refine (hmem.mp ⟨i, List.mem_range.mpr hi, he⟩).resolve_right fun hz => hc hz.2
  · intro hin
    obtain ⟨i, hi, he⟩ := hmem.mpr (.inl hin)
    exact ⟨i, List.mem_range.mp hi, he⟩

/-- The segment between the indices is as long as the slots in use. -/
theorem Rep.segmentLength {r : KeyReport} {xs : List (BitVec 8)} (h : Rep r xs) :
    r.segmentLength = xs.length := by
  have hhead := h.head
  have hfits := h.fits
  have htail := h.tail
  have hzero := h.count_eq_zero
  unfold KeyReport.segmentLength
  by_cases hxs : xs = []
  · rw [if_pos (by simp [htail, hxs]; omega), if_pos (hzero.mpr hxs), hxs]
    rfl
  · have hpos := List.length_pos_iff.mpr hxs
    rw [if_neg (mt hzero.mp hxs)]
    split <;> omega

/-- Indices and count agree with the slots. -/
theorem Rep.coherent {r : KeyReport} {xs : List (BitVec 8)} (h : Rep r xs) : Coherent r where
  count := by
    have hperm := h.perm.countP_eq (· != 0#8)
    rw [List.countP_map, List.countP_append, List.countP_replicate] at hperm
    rw [h.count, held, ← List.countP_eq_length_filter]
    simpa [Function.comp_def] using hperm.symm
  inside := by
    intro i hi hne
    have hhead := h.head
    have hlen := h.length_fill
    have hi' : (r.cbHead + (i + 6 - r.cbHead) % 6) % 6 = i := by omega
    have hget := h.slots.getElem (p := (i + 6 - r.cbHead) % 6) (by omega)
    rw [hi'] at hget
    refine ⟨(i + 6 - r.cbHead) % 6, ?_, hi'.symm⟩
    rw [h.segmentLength]
    by_contra hge
    rw [List.getElem_append_right (by omega), List.getElem_replicate] at hget
    exact hne hget

/-- A ring shows no key when no slot is in use. -/
theorem Rep.noKey {r : KeyReport} {xs : List (BitVec 8)} (h : Rep r xs) :
    NoKey r ↔ xs = [] := by
  constructor
  · intro hno
    refine h.eq_nil (List.eq_nil_iff_forall_not_mem.mpr fun x hx => ?_)
    have hx0 : x ≠ 0#8 := by
      have := List.of_mem_filter hx
      simpa using this
    obtain ⟨i, hi, he⟩ := (h.mem_slots hx0).mpr hx
    exact hx0 (he ▸ hno i hi)
  · rintro rfl
    exact segment_zeros h.slots

theorem rep_init : Rep {} [] where
  head := by decide
  fits := by decide
  tail := rfl
  slots := by
    simp only [List.nil_append, List.length_nil, Nat.sub_zero, List.replicate, segment_cons,
      segment_nil]
    decide
  count := rfl
  last := by simp
  home _ := rfl
  nodup := List.nodup_nil

/-! ## `clear_keys` -/

theorem key_clearKeys (r : KeyReport) (i : Nat) (hi : i < 6) : r.clearKeys.key i = 0 := by
  have hlt : 2 + i < keyboardReportSize := by
    simp only [keyboardReportSize]
    omega
  simp only [key, clearKeys, Vector.getElem?_setIfInBounds, Vector.getElem?_replicate]
  rw [if_neg (by omega), if_pos hlt]
  rfl

/-- Clearing an empty ring changes nothing about it. -/
theorem Rep.clearKeys {r : KeyReport} (h : Rep r []) : Rep r.clearKeys [] := by
  refine ⟨h.head, h.fits, h.tail, ?_, h.count, h.last, h.home, h.nodup⟩
  refine h.slots.congr fun p _ => ?_
  have hlt : (r.cbHead + p) % 6 < 6 := Nat.mod_lt _ (by omega)
  rw [key_clearKeys r _ hlt, segment_zeros h.slots _ hlt]

/-- If keys are held, their count is wrong afterwards. -/
theorem Rep.eq_nil_of_clearKeys {r : KeyReport} {xs : List (BitVec 8)} (h : Rep r xs)
    (hc : Coherent r.clearKeys) : xs = [] := by
  have hcount : r.cbCount.toNat = (List.range 6).countP fun i => r.clearKeys.key i != 0#8 :=
    hc.count
  have hzero : ((List.range 6).countP fun i => r.clearKeys.key i != 0#8) = 0 := by
    refine List.countP_eq_zero.mpr fun i hi => ?_
    rw [key_clearKeys r i (List.mem_range.mp hi)]
    simp
  rw [hzero, h.count] at hcount
  exact h.eq_nil (List.length_eq_zero_iff.mp hcount)

end KeyReport

/-! ## Runs -/

namespace KeyOp

open KeyReport

/-- **One operation on the ring** is the operation on the list of held codes,
and ends within its fuel. -/
theorem ring_spec {r : KeyReport} {xs : List (BitVec 8)} (h : Rep r xs) (op : KeyOp) :
    ∃ r' xs', op.ring? r = some r' ∧ Rep r' xs' ∧ held xs' = op.onList (held xs) ∧
      SameOutside r r' := by
  cases op with
  | add code => exact addKeyByte_spec h code.property
  | del code => exact delKeyByte_spec h code.property

/-- In 6KRO mode the operations work on the ring. -/
theorem apply_spec {s : ActionState} (hs : s.nkroActive = false) {r' : KeyReport} (op : KeyOp)
    (h : op.ring? s.keyReport = some r') : op.apply s = { s with keyReport := r' } := by
  cases op with
  | add code =>
    have h' : s.keyReport.addKeyByte? code = some r' := h
    simp [apply, ActionState.addKey, hs, addKeyByte, h']
  | del code =>
    have h' : s.keyReport.delKeyByte? code = some r' := h
    simp [apply, ActionState.delKey, hs, delKeyByte, h']

/-- One operation has the effect on the report that the list says. -/
theorem effect {r : KeyReport} {xs : List (BitVec 8)} (h : Rep r xs) (op : KeyOp)
    {l : List (BitVec 8)} (hl : l.Nodup) (hheld : held xs = op.onList l) : op.Effect r := by
  cases op with
  | add code =>
    refine (h.mem_slots code.property).mpr ?_
    rw [hheld]
    exact mem_recent 6 l _
  | del code =>
    intro i hi he
    have hin := (h.mem_slots code.property).mp ⟨i, hi, he⟩
    rw [hheld] at hin
    exact hl.not_mem_erase hin

end KeyOp

open KeyReport

/-- A run of `add_key` and `del_key` from a ring that holds `l`. -/
theorem foldl_ring (ops : List KeyOp) : ∀ (s : ActionState) (xs : List (BitVec 8)),
    s.nkroActive = false → Rep s.keyReport xs →
    let s' := runKeys (ops.map .key) s
    ∃ xs', ops.foldlM KeyOp.ring? s.keyReport = some s'.keyReport ∧ Rep s'.keyReport xs' ∧
      held xs' = ops.foldl KeyOp.onList (held xs) ∧ SameOutside s.keyReport s'.keyReport := by
  induction ops with
  | nil => exact fun s xs _ h => ⟨xs, rfl, h, rfl, fun _ _ => rfl⟩
  | cons op ops ih =>
    intro s xs hs h
    obtain ⟨r', xs', hring, hrep, hheld, hsame⟩ := op.ring_spec h
    have happly := op.apply_spec hs hring
    obtain ⟨xs'', hfold, hrep', hheld', hsame'⟩ := ih (op.apply s) xs' (by rw [happly]; exact hs)
      (by rw [happly]; exact hrep)
    have hreport : (op.apply s).keyReport = r' := congrArg ActionState.keyReport happly
    rw [hreport] at hfold hsame'
    rw [hheld] at hheld'
    refine ⟨xs'', ?_, hrep', hheld', hsame.trans hsame'⟩
    rw [List.foldlM_cons, hring]
    exact hfold

/-- **The six-key ring refines a FIFO list.** After any sequence of
`add_key` and `del_key` all loops have ended, the ring holds the list, the
count is its length, the indices are in range and the other bytes of the
report are as they were. -/
theorem ring_refines_recent (ops : List KeyOp) :
    let s := runKeys (ops.map .key) {}
    let l := ops.foldl KeyOp.onList []
    ops.foldlM KeyOp.ring? {} = some s.keyReport ∧ s.keyReport.circular = l ∧
      s.keyReport.cbCount.toNat = l.length ∧ s.keyReport.cbHead < 6 ∧ s.keyReport.cbTail < 6 ∧
      ∀ j, j < 2 ∨ 8 ≤ j → s.keyReport.raw[j]? = ({} : KeyReport).raw[j]? := by
  intro s l
  obtain ⟨xs, hfold, hrep, hheld, hsame⟩ := foldl_ring ops {} [] rfl rep_init
  have hl : held xs = l := hheld
  refine ⟨hfold, hrep.circular.trans hl, hl ▸ hrep.count, hrep.head, ?_, hsame⟩
  rw [hrep.tail]
  exact Nat.mod_lt _ (by omega)

/-- After every call the report is coherent, and the call has had its
effect. -/
def Sound (calls : List KeyCall) : Prop :=
  ∀ pre call post, calls = pre ++ call :: post →
    Coherent (runKeys (pre ++ [call]) {}).keyReport ∧
      ∀ op, call = .key op → op.Effect (runKeys (pre ++ [call]) {}).keyReport

/-- `clear_keys` is only called when no key is in the report. -/
def ClearsNoKey (calls : List KeyCall) : Prop :=
  ∀ pre post, calls = pre ++ .clear :: post → NoKey (runKeys pre {}).keyReport

theorem runKeys_concat (calls : List KeyCall) (call : KeyCall) (s : ActionState) :
    runKeys (calls ++ [call]) s = call.apply (runKeys calls s) := by
  rw [runKeys, List.foldl_append]
  rfl

/-- One call keeps the invariant if it is not a `clear_keys` with keys
held. -/
theorem KeyCall.apply_rep {s : ActionState} {xs : List (BitVec 8)} (hs : s.nkroActive = false)
    (h : Rep s.keyReport xs) (call : KeyCall) (hc : call = .clear → xs = []) :
    (call.apply s).nkroActive = false ∧ (∃ xs', Rep (call.apply s).keyReport xs') ∧
      ∀ op, call = .key op → op.Effect (call.apply s).keyReport := by
  cases call with
  | clear =>
    obtain rfl := hc rfl
    exact ⟨hs, ⟨[], h.clearKeys⟩, by simp⟩
  | key op =>
    obtain ⟨r', xs', hring, hrep, hheld, -⟩ := op.ring_spec h
    rw [KeyCall.apply, op.apply_spec hs hring]
    refine ⟨hs, ⟨xs', hrep⟩, fun op' he => ?_⟩
    obtain rfl : op = op' := by simpa using he
    exact op.effect hrep h.nodup hheld

/-- Any run whose `clear_keys` meet no key keeps the invariant. -/
theorem runKeys_rep (calls : List KeyCall)
    (hc : ∀ pre post, calls = pre ++ .clear :: post →
      ∀ xs, Rep (runKeys pre {}).keyReport xs → xs = []) :
    (runKeys calls {}).nkroActive = false ∧ ∃ xs, Rep (runKeys calls {}).keyReport xs := by
  rcases List.eq_nil_or_concat calls with rfl | ⟨pre, call, rfl⟩
  · exact ⟨rfl, [], rep_init⟩
  · rw [List.concat_eq_append] at hc ⊢
    obtain ⟨hs, xs, h⟩ := runKeys_rep pre fun pre' post he =>
      hc pre' (post ++ [call]) (by rw [he]; simp)
    have hstep := call.apply_rep hs h fun he => hc pre [] (by rw [he]) xs h
    rw [runKeys_concat]
    exact ⟨hstep.1, hstep.2.1⟩
termination_by calls.length

/-- **The ring stays coherent exactly when `clear_keys` meets no key.** -/
theorem sound_iff_clearsNoKey (calls : List KeyCall) : Sound calls ↔ ClearsNoKey calls := by
  constructor
  · intro h pre post he
    have hrep := runKeys_rep pre fun pre' post' he' xs hxs => by
      have hcoh := (h pre' .clear (post' ++ .clear :: post) (by rw [he, he']; simp)).1
      rw [runKeys_concat] at hcoh
      exact hxs.eq_nil_of_clearKeys hcoh
    obtain ⟨-, xs, hxs⟩ := hrep
    have hcoh := (h pre .clear post he).1
    rw [runKeys_concat] at hcoh
    exact hxs.noKey.mpr (hxs.eq_nil_of_clearKeys hcoh)
  · intro h pre call post he
    obtain ⟨hs, xs, hxs⟩ := runKeys_rep pre fun pre' post' he' ys hys =>
      hys.noKey.mp (h pre' (post' ++ call :: post) (by rw [he, he']; simp))
    obtain ⟨-, ⟨xs', hxs'⟩, heff⟩ := call.apply_rep hs hxs fun hclear =>
      hxs.noKey.mp (h pre post (by rw [he, hclear]))
    rw [runKeys_concat]
    exact ⟨hxs'.coherent, heff⟩

/-- A key is held when `clear_keys` is called: afterwards `cb_count` is 1
and no slot is used. -/
theorem clear_keys_incoherent : ¬Sound [.key (.add ⟨4, by decide⟩), .clear] := by
  intro h
  have hcount := (h [.key (.add ⟨4, by decide⟩)] .clear [] rfl).1.count
  exact absurd hcount (by decide +kernel)

end Ch583Kbd.Tmk
