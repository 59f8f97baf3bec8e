/-
Ch583Kbd.Eeprom.Persistence — which sections survive `storage_write`.

The sections are laid out without gaps and share flash pages: the keymap
ends on the page on which the macros begin, the macros end on the page of
the configuration, and `STORAGE_ENCODER_P` lies inside the configuration.
Each write erases the pages of its neighbours as well, and nothing writes
these back. `keymap_after` to `encoder_after` say what every byte of a
section is after a call, `persists_iff` when that is what it should be.
-/
import Ch583Kbd.Eeprom.Storage

namespace Ch583Kbd.Eeprom

open Ch583Kbd.Lib Ch583Kbd.Lib.PageFlash StorageType

variable (C : Cell (0xFF : BitVec 8)) (enc : Bool) (mask : BitVec 8) (s : Storage)
  (flash : Nat → BitVec 8)

/-! ## Reading -/

/-- A block as the flash holds it. -/
def flashBlock (flash : Nat → BitVec 8) (t : StorageType) : Vector (BitVec 8) (blockSize t) :=
  Vector.ofFn fun i => flash (storageP t + i)

theorem eepromRead_block (t t' : StorageType) : (eepromRead flash s t').block t =
    if t = t' then flashBlock flash t else s.block t := by
  have hset : (eepromRead flash s t').block = (s.setBlock t' (flashBlock flash t')).block := by
    unfold eepromRead
    split <;> rfl
  rw [hset]
  split
  · next h =>
    subst h
    exact Storage.setBlock_block s t _
  · next h => exact s.setBlock_other _ h

/-- Reading several sections fills their blocks from the flash and no other. -/
theorem foldl_eepromRead_block (t : StorageType) (l : List StorageType) :
    ∀ s : Storage, (l.foldl (eepromRead flash) s).block t =
      if t ∈ l then flashBlock flash t else s.block t := by
  induction l with
  | nil => exact fun s => rfl
  | cons t' l ih =>
    intro s
    rw [List.foldl_cons, ih, eepromRead_block]
    by_cases hl : t ∈ l
    · simp [hl]
    · by_cases ht : t = t' <;> simp [hl, ht]

/-- `storage_read(0xff)` takes every section of the build from the flash. -/
theorem storageRead_block {t : StorageType} (h : t ∈ sections enc) :
    (storageRead enc 0xFF flash s).block t = flashBlock flash t := by
  have hsel : selected enc 0xFF t = true := by
    have hc : (sections enc).contains t = true := by simpa using h
    rw [selected, hc]
    cases t <;> rfl
  unfold storageRead
  rw [foldl_eepromRead_block, if_pos (List.mem_filter.mpr ⟨h, hsel⟩)]

/-- Only reading the keymap section sets the flag. -/
theorem foldl_eepromRead_valid (l : List StorageType) (h : storageKeymap ∉ l) :
    ∀ s : Storage, (l.foldl (eepromRead flash) s).keymapValid = s.keymapValid := by
  induction l with
  | nil => exact fun s => rfl
  | cons t l ih =>
    intro s
    have ht : t ≠ storageKeymap := fun heq => h (heq ▸ List.mem_cons_self)
    rw [List.foldl_cons, ih fun hl => h (List.mem_cons_of_mem t hl), eepromRead, if_neg ht]
    rfl

/-- After `storage_read(0xff)` the flag is set when some byte of the flash
section is not zero. -/
theorem storageRead_valid : (storageRead enc 0xFF flash s).keymapValid =
    (flashBlock flash storageKeymap).any (· != 0) := by
  have hfirst : (eepromRead flash s storageKeymap).keymapValid =
      (flashBlock flash storageKeymap).any (· != 0) := by
    unfold eepromRead Storage.checkKeymap
    rw [if_pos rfl]
    dsimp only
    rw [Storage.setBlock_block]
    rfl
  obtain ⟨l, hlist, hrest⟩ : ∃ l, (sections enc).filter (selected enc 0xFF) = storageKeymap :: l ∧
      storageKeymap ∉ l := by
    cases enc
    · exact ⟨[storageMacro, storageConfig], by decide, by decide⟩
    · exact ⟨[storageMacro, storageConfig, storageEncoder], by decide, by decide⟩
  unfold storageRead
  rw [hlist, List.foldl_cons, foldl_eepromRead_valid _ _ hrest, hfirst]

/-! ## Writing -/

/-- The pages of a section, as addresses. -/
def pageStart : StorageType → Nat
  | storageKeymap => 0
  | storageMacro => 1024
  | storageConfig => 2048
  | storageEncoder => 2048

def pageEnd : StorageType → Nat
  | storageKeymap => 1280
  | storageMacro | storageConfig | storageEncoder => 2304

/-- A write of a section erases the pages from its first to its last. -/
theorem touches_section (t : StorageType) (a : Nat) :
    Touches eepromPageSize (s.toSection t).addr (s.toSection t).bytes.length a ↔
      pageStart t ≤ a ∧ a < pageEnd t := by
  have hlen : (s.toSection t).bytes.length = blockSize t := Vector.length_toList
  rw [hlen]
  cases t
  · show (0 < 1120 ∧ 0 / 256 ≤ a / 256 ∧ a / 256 ≤ (0 + 1120 - 1) / 256) ↔ 0 ≤ a ∧ a < 1280
    omega
  · show (0 < 1024 ∧ 1120 / 256 ≤ a / 256 ∧ a / 256 ≤ (1120 + 1024 - 1) / 256) ↔
      1024 ≤ a ∧ a < 2304
    omega
  · show (0 < 24 ∧ 2144 / 256 ≤ a / 256 ∧ a / 256 ≤ (2144 + 24 - 1) / 256) ↔
      2048 ≤ a ∧ a < 2304
    omega
  · show (0 < 16 ∧ 2160 / 256 ≤ a / 256 ∧ a / 256 ≤ (2160 + 16 - 1) / 256) ↔
      2048 ≤ a ∧ a < 2304
    omega

/-- What the step for one section leaves at an address. -/
def stepAt (a : Nat) (t : StorageType) (v : BitVec 8) : BitVec 8 :=
  if selected enc mask t ∧ pageStart t ≤ a ∧ a < pageEnd t then ((s.toSection t).at? a).getD 0xFF
  else v

/-- The flash after a call, address by address. -/
theorem storageWrite_apply (a : Nat) : storageWrite C enc mask s flash a =
    stepAt enc mask s a storageEncoder (stepAt enc mask s a storageConfig
      (stepAt enc mask s a storageMacro (stepAt enc mask s a storageKeymap (flash a)))) := by
  have hstep : ∀ t v, (if selected enc mask t then
      (s.toSection t).leaves 0xFF eepromPageSize a v else v) = stepAt enc mask s a t v := by
    intro t v
    unfold stepAt Section.leaves
    rw [if_congr (touches_section s t a) rfl rfl]
    by_cases hsel : selected enc mask t = true <;> simp [hsel]
  have hall : storageWrite C enc mask s flash a =
      (sections enc).foldl (fun v t => stepAt enc mask s a t v) (flash a) := by
    have hmap : storageWrite C enc mask s flash =
        (((sections enc).filter (selected enc mask)).map s.toSection).foldl
          (Section.rewrite C eepromPageSize) flash := by
      rw [List.foldl_map]
      rfl
    rw [hmap, rewriteAll_apply, List.foldl_map, List.foldl_filter]
    simp only [hstep]
  rw [hall]
  cases enc with
  | true => rfl
  | false =>
    have hno : selected false mask storageEncoder = false := rfl
    rw [stepAt, if_neg (by simp [hno])]
    rfl

/-! ## Each section after a call -/

/-- A byte of a block; behind the block the flash is erased. -/
def Storage.byteAt (s : Storage) (t : StorageType) (i : Nat) : BitVec 8 :=
  (s.block t)[i]?.getD 0xFF

theorem byteAt_of_lt {t : StorageType} {i : Nat} (h : i < blockSize t) :
    s.byteAt t i = (s.block t)[i] := by
  rw [Storage.byteAt, Vector.getElem?_eq_getElem h]
  rfl

theorem byteAt_of_le {t : StorageType} {i : Nat} (h : blockSize t ≤ i) :
    s.byteAt t i = 0xFF := by
  rw [Storage.byteAt, Vector.getElem?_eq_none h]
  rfl

theorem pageStart_le (t : StorageType) : pageStart t ≤ storageP t := by
  cases t <;> decide

/-- A page that the section does not reach keeps its cells. -/
theorem stepAt_skip {a : Nat} (t : StorageType) (v : BitVec 8)
    (h : a < pageStart t ∨ pageEnd t ≤ a) : stepAt enc mask s a t v = v := if_neg (by omega)

/-- A cell before the section, on its first page, is erased when the section is
written. -/
theorem stepAt_before {a : Nat} (t : StorageType) (v : BitVec 8) (hpage : pageStart t ≤ a)
    (ha : a < storageP t) (hend : a < pageEnd t) :
    stepAt enc mask s a t v = if selected enc mask t then 0xFF else v := by
  unfold stepAt Section.at?
  rw [if_neg (show ¬ (s.toSection t).addr ≤ a from Nat.not_le_of_lt ha)]
  simp [hpage, hend]

/-- A cell of the section, or behind it on its last page, is rewritten with the
section. -/
theorem stepAt_from {a i : Nat} (t : StorageType) (v : BitVec 8) (ha : a = storageP t + i)
    (hend : a < pageEnd t) :
    stepAt enc mask s a t v = if selected enc mask t then s.byteAt t i else v := by
  subst ha
  have hle := pageStart_le t
  have hstart : pageStart t ≤ storageP t + i := by omega
  unfold stepAt Section.at? Storage.toSection
  dsimp only
  rw [if_pos (Nat.le_add_right _ i), Nat.add_sub_cancel_left]
  simp [hstart, hend, Storage.byteAt]

/-- A cell behind the section, on its last page, is erased when the section is
written. -/
theorem stepAt_behind {a : Nat} (t : StorageType) (v : BitVec 8)
    (ha : storageP t + blockSize t ≤ a) (hend : a < pageEnd t) :
    stepAt enc mask s a t v = if selected enc mask t then 0xFF else v := by
  rw [stepAt_from enc mask s t v (show a = storageP t + (a - storageP t) by omega) hend,
    byteAt_of_le s (by omega)]

/-- The keymap section after `storage_write`: writing the macros erases the last
page of the keymap. -/
theorem keymap_after {i : Nat} (h : i < 1120) :
    storageWrite C enc mask s flash (storageP storageKeymap + i) =
      if selected enc mask storageMacro ∧ 1024 ≤ i then 0xFF
      else if selected enc mask storageKeymap then s.byteAt storageKeymap i
      else flash (storageP storageKeymap + i) := by
  have ha : storageP storageKeymap + i = i := Nat.zero_add i
  rw [storageWrite_apply, stepAt_skip _ _ _ storageEncoder _ (Or.inl (show _ < 2048 by omega)),
    stepAt_skip _ _ _ storageConfig _ (Or.inl (show _ < 2048 by omega)),
    stepAt_from _ _ _ storageKeymap _ rfl (show _ < 1280 by omega)]
  by_cases hi : 1024 ≤ i
  · rw [stepAt_before _ _ _ storageMacro _ (show 1024 ≤ _ by omega) (show _ < 1120 by omega)
      (show _ < 2304 by omega)]
    simp [hi]
  · rw [stepAt_skip _ _ _ storageMacro _ (Or.inl (show _ < 1024 by omega))]
    simp [hi]

/-- The macro section after `storage_write`, which shares pages with both
neighbours. -/
theorem macro_after {i : Nat} (h : i < 1024) :
    storageWrite C enc mask s flash (storageP storageMacro + i) =
      if (selected enc mask storageConfig ∨ selected enc mask storageEncoder) ∧ 928 ≤ i then 0xFF
      else if selected enc mask storageMacro then s.byteAt storageMacro i
      else if selected enc mask storageKeymap ∧ i < 160 then 0xFF
      else flash (storageP storageMacro + i) := by
  have ha : storageP storageMacro + i = 1120 + i := rfl
  rw [storageWrite_apply, stepAt_from _ _ _ storageMacro _ rfl (show _ < 2304 by omega)]
  have hkeymap : stepAt enc mask s (storageP storageMacro + i) storageKeymap
      (flash (storageP storageMacro + i)) =
        if selected enc mask storageKeymap ∧ i < 160 then 0xFF
        else flash (storageP storageMacro + i) := by
    by_cases hi : i < 160
    · rw [stepAt_behind _ _ _ storageKeymap _ (show 0 + 1120 ≤ _ by omega)
        (show _ < 1280 by omega)]
      simp [hi]
    · rw [stepAt_skip _ _ _ storageKeymap _ (Or.inr (show 1280 ≤ _ by omega))]
      simp [hi]
  rw [hkeymap]
  by_cases hi : 928 ≤ i
  · rw [stepAt_before _ _ _ storageEncoder _ (show 2048 ≤ _ by omega) (show _ < 2160 by omega)
      (show _ < 2304 by omega), stepAt_before _ _ _ storageConfig _ (show 2048 ≤ _ by omega)
      (show _ < 2144 by omega) (show _ < 2304 by omega)]
    by_cases he : selected enc mask storageEncoder = true
    · simp [hi, he]
    · simp [hi, he]
  · rw [stepAt_skip _ _ _ storageEncoder _ (Or.inl (show _ < 2048 by omega)),
      stepAt_skip _ _ _ storageConfig _ (Or.inl (show _ < 2048 by omega))]
    simp [hi]

/-- The config section after `storage_write`: the encoder section lies on the
same page. -/
theorem config_after {i : Nat} (h : i < 24) :
    storageWrite C enc mask s flash (storageP storageConfig + i) =
      if selected enc mask storageEncoder then
        if 16 ≤ i then s.byteAt storageEncoder (i - 16) else 0xFF
      else if selected enc mask storageConfig then s.byteAt storageConfig i
      else if selected enc mask storageMacro then 0xFF
      else flash (storageP storageConfig + i) := by
  have ha : storageP storageConfig + i = 2144 + i := rfl
  rw [storageWrite_apply, stepAt_skip _ _ _ storageKeymap _ (Or.inr (show 1280 ≤ _ by omega)),
    stepAt_behind _ _ _ storageMacro _ (show 1120 + 1024 ≤ _ by omega) (show _ < 2304 by omega),
    stepAt_from _ _ _ storageConfig _ rfl (show _ < 2304 by omega)]
  by_cases hi : 16 ≤ i
  · have hover : storageP storageConfig + i = storageP storageEncoder + (i - 16) := by
      show _ = 2160 + (i - 16)
      omega
    rw [stepAt_from _ _ _ storageEncoder _ hover (show _ < 2304 by omega), if_pos hi]
  · rw [stepAt_before _ _ _ storageEncoder _ (show 2048 ≤ _ by omega) (show _ < 2160 by omega)
      (show _ < 2304 by omega), if_neg hi]

/-- The encoder section after `storage_write`: writing the config puts the end
of its own block there. -/
theorem encoder_after {i : Nat} (h : i < 16) :
    storageWrite C enc mask s flash (storageP storageEncoder + i) =
      if selected enc mask storageEncoder then s.byteAt storageEncoder i
      else if selected enc mask storageConfig then s.byteAt storageConfig (16 + i)
      else if selected enc mask storageMacro then 0xFF
      else flash (storageP storageEncoder + i) := by
  have ha : storageP storageEncoder + i = 2160 + i := rfl
  have hover : storageP storageEncoder + i = storageP storageConfig + (16 + i) := by
    show _ = 2144 + (16 + i)
    omega
  rw [storageWrite_apply, stepAt_skip _ _ _ storageKeymap _ (Or.inr (show 1280 ≤ _ by omega)),
    stepAt_behind _ _ _ storageMacro _ (show 1120 + 1024 ≤ _ by omega) (show _ < 2304 by omega),
    stepAt_from _ _ _ storageConfig _ hover (show _ < 2304 by omega),
    stepAt_from _ _ _ storageEncoder _ rfl (show _ < 2304 by omega)]

/-! ## Sections that survive -/

/-- The byte that a section is to have in the flash after a call. -/
def due (t : StorageType) (i : Nat) : BitVec 8 :=
  if selected enc mask t then s.byteAt t i else flash (storageP t + i)

/-- After the call `storage_read(0xff)` restores the selected sections, and
the others have the bytes they had. -/
def Persists : Prop :=
  ∀ t ∈ sections enc,
    (selected enc mask t = true → ∀ s' : Storage,
      (storageRead enc 0xFF (storageWrite C enc mask s flash) s').block t = s.block t) ∧
    (selected enc mask t = false → ∀ i, i < blockSize t →
      storageWrite C enc mask s flash (storageP t + i) = flash (storageP t + i))

/-- Where a call erases a page of another section that is not written after
it, that section is to be blank. -/
structure Undisturbed : Prop where
  /-- The keymap shares its last page with the macros. -/
  keymap : selected enc mask storageMacro = true → ∀ i, 1024 ≤ i → i < 1120 →
    due enc mask s flash storageKeymap i = 0xFF
  macroHead : selected enc mask storageKeymap = true → selected enc mask storageMacro = false →
    ∀ i, i < 160 → due enc mask s flash storageMacro i = 0xFF
  /-- The macros share theirs with the configuration and the encoders. -/
  macroTail : selected enc mask storageConfig = true ∨ selected enc mask storageEncoder = true →
    ∀ i, 928 ≤ i → i < 1024 → due enc mask s flash storageMacro i = 0xFF
  config : selected enc mask storageMacro = true → selected enc mask storageConfig = false →
    selected enc mask storageEncoder = false →
    ∀ i, i < 24 → due enc mask s flash storageConfig i = 0xFF
  /-- The encoders begin within the configuration. -/
  configEncoder : selected enc mask storageEncoder = true → ∀ i, i < 24 →
    due enc mask s flash storageConfig i =
      if 16 ≤ i then s.byteAt storageEncoder (i - 16) else 0xFF
  encoder : enc = true → selected enc mask storageMacro = true →
    selected enc mask storageConfig = false → selected enc mask storageEncoder = false →
    ∀ i, i < 16 → due enc mask s flash storageEncoder i = 0xFF
  encoderConfig : enc = true → selected enc mask storageConfig = true →
    selected enc mask storageEncoder = false →
    ∀ i, i < 16 → due enc mask s flash storageEncoder i = s.byteAt storageConfig (16 + i)

theorem due_selected {t : StorageType} {i : Nat} (h : selected enc mask t = true) :
    due enc mask s flash t i = s.byteAt t i := if_pos h

theorem due_other {t : StorageType} {i : Nat} (h : ¬ selected enc mask t = true) :
    due enc mask s flash t i = flash (storageP t + i) := if_neg h

/-- A call persists if every byte of every section is the one due. -/
theorem persists_iff_due : Persists C enc mask s flash ↔
    ∀ t ∈ sections enc, ∀ i, i < blockSize t →
      storageWrite C enc mask s flash (storageP t + i) = due enc mask s flash t i := by
  constructor
  · intro h t ht i hi
    by_cases hsel : selected enc mask t = true
    · have hblock := (h t ht).1 hsel {}
      rw [storageRead_block enc {} _ ht] at hblock
      rw [due_selected enc mask s flash hsel, byteAt_of_lt s hi, ← hblock]
      simp [flashBlock]
    · rw [due_other enc mask s flash hsel]
      exact (h t ht).2 (by simpa using hsel) i hi
  · intro h t ht
    constructor
    · intro hsel s'
      rw [storageRead_block enc s' _ ht]
      apply Vector.ext
      intro i hi
      have hbyte := h t ht i hi
      rw [due_selected enc mask s flash hsel, byteAt_of_lt s hi] at hbyte
      simpa [flashBlock] using hbyte
    · intro hsel i hi
      rw [h t ht i hi, due_other enc mask s flash (by simp [hsel])]

theorem keymap_mem : storageKeymap ∈ sections enc := by simp [sections]
theorem macro_mem : storageMacro ∈ sections enc := by simp [sections]
theorem config_mem : storageConfig ∈ sections enc := by simp [sections]

theorem encoder_mem : storageEncoder ∈ sections enc ↔ enc = true := by
  cases enc <;> decide

/-- Where every section reads back what was due, none was disturbed. -/
theorem undisturbed_of_persists (h : Persists C enc mask s flash) :
    Undisturbed enc mask s flash := by
  rw [persists_iff_due] at h
  constructor
  · intro hm i hlo hi
    rw [← h _ (keymap_mem enc) i hi, keymap_after _ _ _ _ _ hi, if_pos ⟨hm, hlo⟩]
  · intro hk hm i hi
    have hlt : i < 1024 := by omega
    rw [← h _ (macro_mem enc) i hlt, macro_after _ _ _ _ _ hlt, if_neg (by omega),
      if_neg (by simp [hm]), if_pos ⟨hk, hi⟩]
  · intro hce i hlo hi
    rw [← h _ (macro_mem enc) i hi, macro_after _ _ _ _ _ hi, if_pos ⟨hce, hlo⟩]
  · intro hm hc he i hi
    rw [← h _ (config_mem enc) i hi, config_after _ _ _ _ _ hi, if_neg (by simp [he]),
      if_neg (by simp [hc]), if_pos hm]
  · intro he i hi
    rw [← h _ (config_mem enc) i hi, config_after _ _ _ _ _ hi, if_pos he]
  · intro henc hm hc he i hi
    rw [← h _ ((encoder_mem enc).mpr henc) i hi, encoder_after _ _ _ _ _ hi,
      if_neg (by simp [he]), if_neg (by simp [hc]), if_pos hm]
  · intro henc hc he i hi
    rw [← h _ ((encoder_mem enc).mpr henc) i hi, encoder_after _ _ _ _ _ hi,
      if_neg (by simp [he]), if_pos hc]

/-- **A call persists exactly if it disturbs no section.** -/
theorem persists_iff : Persists C enc mask s flash ↔ Undisturbed enc mask s flash := by
  constructor
  · exact undisturbed_of_persists C enc mask s flash
  · intro h
    rw [persists_iff_due]
    intro t ht i hi
    cases t with
    | storageKeymap =>
      rw [keymap_after _ _ _ _ _ hi]
      by_cases hm : selected enc mask storageMacro = true ∧ 1024 ≤ i
      · rw [if_pos hm, h.keymap hm.1 i hm.2 hi]
      · rw [if_neg hm]
        rfl
    | storageMacro =>
      rw [macro_after _ _ _ _ _ hi]
      by_cases hce : (selected enc mask storageConfig = true ∨
          selected enc mask storageEncoder = true) ∧ 928 ≤ i
      · rw [if_pos hce, h.macroTail hce.1 i hce.2 hi]
      · rw [if_neg hce]
        by_cases hm : selected enc mask storageMacro = true
        · rw [if_pos hm, due_selected enc mask s flash hm]
        · rw [if_neg hm]
          by_cases hk : selected enc mask storageKeymap = true ∧ i < 160
          · rw [if_pos hk, h.macroHead hk.1 (by simpa using hm) i hk.2]
          · rw [if_neg hk, due_other enc mask s flash hm]
    | storageConfig =>
      rw [config_after _ _ _ _ _ hi]
      by_cases he : selected enc mask storageEncoder = true
      · rw [if_pos he, h.configEncoder he i hi]
      · rw [if_neg he]
        by_cases hc : selected enc mask storageConfig = true
        · rw [if_pos hc, due_selected enc mask s flash hc]
        · rw [if_neg hc]
          by_cases hm : selected enc mask storageMacro = true
          · rw [if_pos hm, h.config hm (by simpa using hc) (by simpa using he) i hi]
          · rw [if_neg hm, due_other enc mask s flash hc]
    | storageEncoder =>
      have henc : enc = true := (encoder_mem enc).mp ht
      rw [encoder_after _ _ _ _ _ hi]
      by_cases he : selected enc mask storageEncoder = true
      · rw [if_pos he, due_selected enc mask s flash he]
      · rw [if_neg he]
        by_cases hc : selected enc mask storageConfig = true
        · rw [if_pos hc, h.encoderConfig henc hc (by simpa using he) i hi]
        · rw [if_neg hc]
          by_cases hm : selected enc mask storageMacro = true
          · rw [if_pos hm, h.encoder henc hm (by simpa using hc) (by simpa using he) i hi]
          · rw [if_neg hm, due_other enc mask s flash he]

/-! ## Histories -/

/-- `P` holds of every call of a history: the mask, the blocks in RAM, and
the flash before the call. -/
def EachCall (P : BitVec 8 → Storage → (Nat → BitVec 8) → Prop) (flash : Nat → BitVec 8) :
    List (BitVec 8 × Storage) → Prop
  | [] => True
  | (mask, s) :: calls =>
    P mask s flash ∧ EachCall P (storageWrite C enc mask s flash) calls

/-- **Every call of a history persists exactly if none disturbs a section.** -/
theorem history_persists_iff (calls : List (BitVec 8 × Storage)) :
    ∀ flash : Nat → BitVec 8, EachCall C enc (Persists C enc) flash calls ↔
      EachCall C enc (Undisturbed enc) flash calls := by
  induction calls with
  | nil => exact fun flash => Iff.rfl
  | cons call calls ih =>
    intro flash
    obtain ⟨mask, s⟩ := call
    exact and_congr (persists_iff C enc mask s flash) (ih _)

/-- All sections of an empty RAM, written to an erased flash: the keymap
loses the end of its last page. -/
theorem keymap_tail_lost :
    ¬ EachCall clearBits false (Persists clearBits false) (fun _ => 0xFF) [(0x07, {})] := by
  rintro ⟨hpersists, -⟩
  have hblank := (undisturbed_of_persists _ _ _ _ _ hpersists).keymap (by decide) 1024
    (by decide) (by decide)
  rw [due_selected _ _ _ _ (by decide), byteAt_of_lt _ (by decide)] at hblank
  have hzero : (({} : Storage).block storageKeymap)[1024] = 0 := Vector.getElem_replicate _
  rw [hzero] at hblank
  exact absurd hblank (by decide)

end Ch583Kbd.Eeprom
