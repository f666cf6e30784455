/-
Reading integer columns that are stored as differences from a base
(ob_integer_base_diff_decoder.h, ob_integer_base_diff_decoder.cpp): single rows
and batches of rows come back as they were encoded.
-/
import SeekDB.IntegerBaseDiffLayout

namespace SeekDB.IntegerBaseDiff

open ObBitStream List BitMemory WordOrder

/-- The decoder after `init`: the width in the header, and the base. -/
structure ObIntegerBaseDiffDecoder where
  length : Nat
  base : BitVec 64
deriving DecidableEq, Repr

namespace ObColumnDecoderCtx

/-- The column's data: marks and differences. -/
def colData (ctx : ObColumnDecoderCtx) (block : Nat → BitVec 8) : Nat → BitVec 8 := fun p =>
  block (ctx.length + p)

/-- The bit the differences start at, if they are packed. -/
def dataOffset (ctx : ObColumnDecoderCtx) : Nat :=
  if ctx.hasExtendValue then ctx.rowCount * ctx.extendValueBit else 0

def extendValue (ctx : ObColumnDecoderCtx) (block : Nat → BitVec 8) (rowId : Nat) : BitVec 64 :=
  ObBitStream.get (ctx.colData block) (rowId * ctx.extendValueBit) ctx.extendValueBit

end ObColumnDecoderCtx

/-- `set_stored_ext_value`. -/
def setStoredExtValue (datum : ObDatum) (v : BitVec 64) : ObDatum :=
  if v = 1 then .null else if v = 2 then .nop else datum

namespace ObIntegerBaseDiffDecoder

def init (ctx : ObColumnDecoderCtx) (block : Nat → BitVec 8) : ObIntegerBaseDiffDecoder where
  length := (block 1).toNat
  base := extend ctx.objType.reverseMask (copyFrom block 2 ctx.objType.typeSize)

/-- The difference stored for a row, packed or in whole bytes. -/
def readDelta (decoder : ObIntegerBaseDiffDecoder) (ctx : ObColumnDecoderCtx)
    (block : Nat → BitVec 8) (rowId : Nat) : BitVec 64 :=
  if ctx.isBitPacking then
    ObBitStream.get (ctx.colData block) (ctx.dataOffset + rowId * decoder.length) decoder.length
  else
    copyFrom (ctx.colData block) ((ctx.dataOffset + 7) / 8 + rowId * decoder.length)
      decoder.length

/-- `decode` into a datum that may already hold something. -/
def decode (decoder : ObIntegerBaseDiffDecoder) (ctx : ObColumnDecoderCtx)
    (block : Nat → BitVec 8) (datum : ObDatum) (rowId : Nat) : ObDatum :=
  let val := if ctx.hasExtendValue then ctx.extendValue block rowId else 0
  if val ≠ 0 then setStoredExtValue datum val
  else .value (decoder.readDelta ctx block rowId + decoder.base)

/-- The unpacking that `batch_get_bitpacked_values` chooses by the width. -/
def batchUnpack (decoder : ObIntegerBaseDiffDecoder) (ctx : ObColumnDecoderCtx)
    (block : Nat → BitVec 8) (rowId : Nat) : Option (BitVec 64) :=
  let packedLen := decoder.length
  let bsLen : Int := packedLen * ctx.rowCount
  let offset := ctx.dataOffset + rowId * packedLen
  if packedLen < 10 then
    some (getLessThan10 (ctx.colData block) offset packedLen bsLen)
  else if packedLen < 26 then
    some (getLessThan26 (ctx.colData block) offset packedLen bsLen)
  else if packedLen ≤ 64 then some (ObBitStream.get (ctx.colData block) offset packedLen)
  else none

/-- One row of `batch_decode`: a row with a mark is null. -/
def batchDecodeRow (decoder : ObIntegerBaseDiffDecoder) (ctx : ObColumnDecoderCtx)
    (block : Nat → BitVec 8) (rowId : Nat) : Option ObDatum :=
  if ctx.hasExtendValue && ctx.extendValue block rowId ≠ 0 then some .null
  else if ctx.isBitPacking then
    (decoder.batchUnpack ctx block rowId).map fun v => .value (v + decoder.base)
  else some (.value (decoder.readDelta ctx block rowId + decoder.base))

def batchDecode (decoder : ObIntegerBaseDiffDecoder) (ctx : ObColumnDecoderCtx)
    (block : Nat → BitVec 8) (rowIds : List Nat) : Option (List ObDatum) :=
  rowIds.mapM (decoder.batchDecodeRow ctx block)

end ObIntegerBaseDiffDecoder

/-! ### What was encoded is read -/

namespace Layout

variable {t : ObObjType} {datums : List ObDatum} {ctx : ObColumnDecoderCtx} {base : BitVec 64}
  {width : Nat} {block : Nat → BitVec 8} {row : Nat} {datum : ObDatum} {v : BitVec 64}

section

variable (h : Layout t datums ctx base width block)

include h

theorem init_eq :
    ObIntegerBaseDiffDecoder.init ctx block = ⟨width, base⟩ := by
  have hbase : WordOrder.extend t.reverseMask (copyFrom block 2 t.typeSize) = base := by
    rw [h.baseField.copyFrom_eq t.typeSize_le]
    exact t.castToUint64_eq h.baseHolds
  rw [ObIntegerBaseDiffDecoder.init, h.widthByte, h.objType, hbase]

theorem extendValue_eq (hext : ctx.hasExtendValue = true) (hrow : datums[row]? = some datum) :
    ctx.extendValue block row = datum.storedExtValue :=
  get_eq_of_field (h.extend hext row datum hrow) (h.extend_le.trans (by decide))

theorem readDelta_eq (hrow : datums[row]? = some (.value v)) :
    ObIntegerBaseDiffDecoder.readDelta ⟨width, base⟩ ctx block row = v - base := by
  unfold ObIntegerBaseDiffDecoder.readDelta
  rw [ObColumnDecoderCtx.dataOffset, h.rowCount, Nat.mul_comm]
  cases hpacking : ctx.isBitPacking with
  | true => exact get_eq_of_field (h.packed hpacking row v hrow) h.width_le
  | false => exact (h.fixed hpacking row v hrow).copyFrom_eq (h.fixed_le hpacking)

theorem value_of_plain (hrow : datums[row]? = some datum) :
    ctx.hasExtendValue = true ∨ ∃ v, datum = .value v := by
  cases hext : ctx.hasExtendValue with
  | true => exact .inl rfl
  | false => exact .inr (h.plain hext datum (mem_of_getElem? hrow))

theorem decode_eq (hrow : datums[row]? = some datum) (old : ObDatum) :
    (ObIntegerBaseDiffDecoder.init ctx block).decode ctx block old row = datum := by
  rw [h.init_eq]
  unfold ObIntegerBaseDiffDecoder.decode
  have hval : (if ctx.hasExtendValue then ctx.extendValue block row else 0) =
      datum.storedExtValue := by
    rcases h.value_of_plain hrow with hext | ⟨v, rfl⟩
    · rw [if_pos hext, h.extendValue_eq hext hrow]
    · cases hext : ctx.hasExtendValue with
      | true => exact h.extendValue_eq hext hrow
      | false => rfl
  rw [hval]
  cases datum with
  | null | nop => rfl
  | value =>
    change ObDatum.value (_ + base) = _
    rw [h.readDelta_eq hrow, BitVec.sub_add_cancel]

theorem batchUnpack_eq
    (hpacking : ctx.isBitPacking = true) (hrow : datums[row]? = some (.value v)) :
    ObIntegerBaseDiffDecoder.batchUnpack ⟨width, base⟩ ctx block row = some (v - base) := by
  have hread := h.readDelta_eq hrow
  simp only [ObIntegerBaseDiffDecoder.readDelta, hpacking, if_true] at hread
  unfold ObIntegerBaseDiffDecoder.batchUnpack
  dsimp only
  split_ifs with hten htwentySix hword
  · rw [getLessThan10_eq _ _ _ hten, hread]
  · rw [getLessThan26_eq _ _ _ htwentySix, hread]
  · rw [hread]
  · exact absurd h.width_le hword

theorem batchDecodeRow_eq (hrow : datums[row]? = some datum) (hnop : datum ≠ .nop) :
    (ObIntegerBaseDiffDecoder.init ctx block).batchDecodeRow ctx block row = some datum := by
  rw [h.init_eq]
  unfold ObIntegerBaseDiffDecoder.batchDecodeRow
  cases datum with
  | nop => exact absurd rfl hnop
  | null =>
    rcases h.value_of_plain hrow with hext | ⟨v, hv⟩
    · rw [hext, h.extendValue_eq hext hrow]
      rfl
    · cases hv
  | value v =>
    have hmark : (ctx.hasExtendValue && decide (ctx.extendValue block row ≠ 0)) = false := by
      cases hext : ctx.hasExtendValue with
      | true =>
        rw [h.extendValue_eq hext hrow]
        rfl
      | false => rfl
    rw [hmark, if_neg (by decide)]
    cases hpacking : ctx.isBitPacking with
    | true =>
      rw [if_pos rfl, h.batchUnpack_eq hpacking hrow, Option.map_some, BitVec.sub_add_cancel]
    | false =>
      rw [if_neg (by decide), h.readDelta_eq hrow]
      rw [BitVec.sub_add_cancel]

theorem batchDecode_eq (hnop : ∀ datum ∈ datums, datum ≠ .nop) {rowIds : List Nat}
    (hrows : ∀ rowId ∈ rowIds, rowId < datums.length) :
    (ObIntegerBaseDiffDecoder.init ctx block).batchDecode ctx block rowIds =
      rowIds.mapM (datums[·]?) := by
  unfold ObIntegerBaseDiffDecoder.batchDecode
  induction rowIds with
  | nil => rfl
  | cons rowId rest ih =>
    obtain ⟨datum, hrow⟩ : ∃ datum, datums[rowId]? = some datum :=
      ⟨_, List.getElem?_eq_getElem (hrows rowId mem_cons_self)⟩
    rw [mapM_cons, mapM_cons, h.batchDecodeRow_eq hrow (hnop _ (mem_of_getElem? hrow)), hrow,
      ih fun r hr => hrows r (mem_cons_of_mem _ hr)]

end

end Layout

end SeekDB.IntegerBaseDiff
