/-
Ch583Kbd.Eeprom.Storage — the stored keymap, macros and configuration:
`eeprom.c` and `eeprom.h` in the configuration of `zora61`.

The blocks live in RAM; `storage_read` and `storage_write` copy them from
and to the data flash. `ENCODER_ENABLED` is a parameter of these two. With
it `storage_write_data` calls `check_encoder`, which no file defines, so
the access functions are those of a build without it.

`actionForKey` takes the default table and the bytes of RAM behind
`keymap_block` as an `Image`: the table has 4 layers and the block 8, but
the function answers for layers up to 139.
-/
import Ch583Kbd.Lib.Block
import Ch583Kbd.Lib.PageFlash
import Ch583Kbd.Tmk.ActionLayer

namespace Ch583Kbd.Eeprom

open Ch583Kbd.Lib Ch583Kbd.Lib.Block Ch583Kbd.Tmk

def matrixRows : Nat := 5
def matrixCols : Nat := 14
def maxLayer : Nat := 8
def maxMacroSize : Nat := 1024
def singleKeySize : Nat := 2
def keymapRowSize : Nat := matrixCols * singleKeySize
def keymapLayerSize : Nat := matrixRows * keymapRowSize

def getWord (i : Nat) : Nat := (i + 3) / 4
def keymapSizeWord : Nat := getWord (keymapLayerSize * maxLayer)
def macroBlockSizeWord : Nat := getWord maxMacroSize
def configBlockSizeWord : Nat := 6
def encoderBlockSizeWord : Nat := 4

/-- `enum storage_type`. -/
inductive StorageType where
  | storageKeymap | storageMacro | storageConfig | storageEncoder
  deriving DecidableEq, Repr

open StorageType

/-- The size of a block. -/
def blockSize : StorageType → Nat
  | storageKeymap => keymapSizeWord * 4
  | storageMacro => macroBlockSizeWord * 4
  | storageConfig => configBlockSizeWord * 4
  | storageEncoder => encoderBlockSizeWord * 4

theorem blockSize_keymap : blockSize storageKeymap = 1120 := rfl
theorem blockSize_macros : blockSize storageMacro = 1024 := rfl
/-- `keymap_block`, `macro_block`, `config_block`, `encoder_block` and
`keymap_valid`. -/
@[ext] structure Storage where
  block : (t : StorageType) → Vector (BitVec 8) (blockSize t) := fun _ => Vector.replicate _ 0
  keymapValid : Bool := false

namespace Storage

def setBlock (s : Storage) (t : StorageType) (b : Vector (BitVec 8) (blockSize t)) : Storage :=
  { s with block := Function.update s.block t b }

@[simp] theorem setBlock_block (s : Storage) (t : StorageType)
    (b : Vector (BitVec 8) (blockSize t)) :
    (s.setBlock t b).block t = b := Function.update_self ..

theorem setBlock_other (s : Storage) {t t' : StorageType} (b : Vector (BitVec 8) (blockSize t))
    (h : t' ≠ t) : (s.setBlock t b).block t' = s.block t' := Function.update_of_ne h ..

def checkKeymap (s : Storage) : Storage :=
  { s with keymapValid := (s.block storageKeymap).any (· != 0) }

@[simp] theorem checkKeymap_block (s : Storage) : s.checkKeymap.block = s.block := rfl

end Storage

/-! ## Looking a key up -/

/-- `UINT16_READ`. -/
def uint16Read (data : Nat → BitVec 8) (index : Nat) : BitVec 16 :=
  (data index).setWidth 16 + (data (index + 1)).setWidth 16 <<< 8

/-- `UINT16_SEQ`. -/
def uint16Seq (d : BitVec 16) : List (BitVec 8) := [d.extractLsb' 0 8, d.extractLsb' 8 8]

/-- The table `actionmaps`, and the bytes of RAM that follow `keymap_block`. -/
structure Image where
  actionmaps : Keymap
  behind : Nat → BitVec 8

/-- The byte at `keymap_block[i]`. -/
def keymapByte (img : Image) (s : Storage) (i : Nat) : BitVec 8 :=
  if h : i < blockSize storageKeymap then (s.block storageKeymap)[i]
  else img.behind (i - blockSize storageKeymap)

/-- The `uint16_t index` of `action_for_key` and `set_single_key`. -/
def keyIndex (layer row col : BitVec 8) : BitVec 16 :=
  BitVec.ofNat 16
    (layer.toNat * keymapLayerSize + row.toNat * keymapRowSize + col.toNat * singleKeySize)

def actionForKey (img : Image) (s : Storage) : Keymap := fun layer key =>
  if keymapLayerSize ≤ layer.toNat ∨ matrixCols ≤ key.col.toNat ∨ matrixRows ≤ key.row.toNat then
    Action.no
  else if s.keymapValid then
    ⟨uint16Read (keymapByte img s) (keyIndex layer key.row key.col).toNat⟩
  else img.actionmaps layer key

/-! ## Access to the blocks -/

/-- `storage_get_data_pointer`: the size, unless the type is not supported
and the pointer stays 0. -/
def storageGetDataPointer : StorageType → Option (BitVec 16)
  | storageKeymap => some (BitVec.ofNat 16 (keymapSizeWord * 4))
  | storageMacro => some (BitVec.ofNat 16 (macroBlockSizeWord * 4))
  | storageConfig => some (BitVec.ofNat 16 (configBlockSizeWord * 4))
  | storageEncoder => none

/-- `if (size < len + offset) len = size - offset`: the comparison is one of
`int`s, the difference wraps. -/
def clampLen (size offset len : BitVec 16) : BitVec 16 :=
  if size.toNat < len.toNat + offset.toNat then size - offset else len

/-- The value returned, and the bytes put at `data`. -/
def storageReadData (s : Storage) (t : StorageType) (offset len : BitVec 16) :
    Except Fault (BitVec 16 × List (BitVec 8)) :=
  match storageGetDataPointer t with
  | none => .ok (0, [])
  | some size => do
    let len := clampLen size offset len
    let data ← copyOut (s.block t) offset.toNat len.toNat
    return (len, data)

def storageWriteData (s : Storage) (t : StorageType) (offset len : BitVec 16)
    (data : Nat → Option (BitVec 8)) : Except Fault (BitVec 16 × Storage) :=
  match storageGetDataPointer t with
  | none => .ok (0, s)
  | some size => do
    let len := clampLen size offset len
    let block ← copyIn (s.block t) offset.toNat data len.toNat
    let s' := s.setBlock t block
    return (len, if t = storageKeymap then s'.checkKeymap else s')

/-! ## Flash -/

def storageKeymapP : Nat := 0x0000
def storageMacroP : Nat := storageKeymapP + keymapSizeWord * 4
def storageConfigP : Nat := storageMacroP + macroBlockSizeWord * 4
def storageEncoderP : Nat := storageConfigP + encoderBlockSizeWord * 4

/-- `STORAGE_*_P`. -/
def storageP : StorageType → Nat
  | storageKeymap => storageKeymapP
  | storageMacro => storageMacroP
  | storageConfig => storageConfigP
  | storageEncoder => storageEncoderP

def StorageType.bit : StorageType → BitVec 8
  | storageKeymap => 0x01
  | storageMacro => 0x02
  | storageConfig => 0x04
  | storageEncoder => 0x08

/-- The sections of a build, in the order in which they are read and
written; `enc` is `ENCODER_ENABLED`. -/
def sections (enc : Bool) : List StorageType :=
  [storageKeymap, storageMacro, storageConfig] ++ if enc then [storageEncoder] else []

/-- `mask & bit`, for a section that the build has. -/
def selected (enc : Bool) (mask : BitVec 8) (t : StorageType) : Bool :=
  (sections enc).contains t && mask &&& t.bit != 0

def eepromRead (flash : Nat → BitVec 8) (s : Storage) (t : StorageType) : Storage :=
  let s' := s.setBlock t (Vector.ofFn fun i => flash (storageP t + i))
  if t = storageKeymap then s'.checkKeymap else s'

def storageRead (enc : Bool) (mask : BitVec 8) (flash : Nat → BitVec 8) (s : Storage) : Storage :=
  ((sections enc).filter (selected enc mask)).foldl (eepromRead flash) s

/-- `EEPROM_PAGE_SIZE`. -/
def eepromPageSize : Nat := 256

/-- A block as a section of the flash. -/
def Storage.toSection (s : Storage) (t : StorageType) : PageFlash.Section (BitVec 8) where
  addr := storageP t
  bytes := (s.block t).toList

/-- Cells that programming can only clear bits of. -/
def clearBits : PageFlash.Cell (0xFF : BitVec 8) where
  store old new := old &&& new
  store_blank := by decide

variable (C : PageFlash.Cell (0xFF : BitVec 8))

def eepromWrite (s : Storage) (flash : Nat → BitVec 8) (t : StorageType) : Nat → BitVec 8 :=
  (s.toSection t).rewrite C eepromPageSize flash

def storageWrite (enc : Bool) (mask : BitVec 8) (s : Storage) (flash : Nat → BitVec 8) :
    Nat → BitVec 8 :=
  ((sections enc).filter (selected enc mask)).foldl (eepromWrite C s) flash

end Ch583Kbd.Eeprom
