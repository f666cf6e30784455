/-
Integer columns stored as differences from their smallest value
(ob_integer_base_diff_encoder.cpp, and the parts of ob_icolumn_encoder.h and
ob_micro_block_encoder.cpp that lay a column out).

A column is a header with the width of the differences, the base in as many
bytes as the type has, the bits that mark nulls and nops, and the differences,
packed bit by bit or in whole bytes.
-/
import SeekDB.ObBitStream
import SeekDB.WordOrder

namespace SeekDB.IntegerBaseDiff

open List Nat BitMemory WordOrder

/-- The integer types of columns. -/
inductive ObObjType
  | tinyInt
  | smallInt
  | mediumInt
  | int32
  | int
  | uTinyInt
  | uSmallInt
  | uMediumInt
  | uInt32
  | uInt64
deriving DecidableEq, Repr

namespace ObObjType

/-- `get_type_size_map`. -/
def typeSize : ObObjType → Nat
  | tinyInt | uTinyInt => 1
  | smallInt | uSmallInt => 2
  | mediumInt | int32 | uMediumInt | uInt32 => 4
  | int | uInt64 => 8

/-- `get_store_class_map`: `ObIntSC` for the signed types, `ObUIntSC` for the others. -/
def isIntSC : ObObjType → Bool
  | tinyInt | smallInt | mediumInt | int32 | int => true
  | uTinyInt | uSmallInt | uMediumInt | uInt32 | uInt64 => false

end ObObjType

def integerMaskTable : List (BitVec 64) :=
  [0x0, 0xff, 0xffff, 0xffffff, 0xffffffff,
    0xffffffffff, 0xffffffffffff, 0xffffffffffffff, 0xffffffffffffffff]

def ObObjType.mask (t : ObObjType) : BitVec 64 := integerMaskTable.getD t.typeSize 0

def ObObjType.reverseMask (t : ObObjType) : BitVec 64 := if t.isIntSC then ~~~t.mask else 0

/-- A value of an integer type is kept in eight bytes, whatever its type. -/
inductive ObDatum
  | null
  | nop
  | value (v : BitVec 64)
deriving DecidableEq, Repr

/-- `get_stored_ext_value`. -/
def ObDatum.storedExtValue : ObDatum → BitVec 64
  | .value _ => 0
  | .null => 1
  | .nop => 2

/-- The word `ObIntegerData` computes with: the low bytes of the datum, extended again. -/
def ObObjType.castToUint64 (t : ObObjType) (v : BitVec 64) : BitVec 64 :=
  extend t.reverseMask (v &&& t.mask)

structure ObIntegerData where
  min : BitVec 64
  max : BitVec 64
deriving DecidableEq, Repr

namespace ObIntegerData

def init (t : ObObjType) : ObIntegerData :=
  if t.isIntSC then ⟨BitVec.intMax 64, BitVec.intMin 64⟩ else ⟨BitVec.allOnes 64, 0⟩

def traverseCell (t : ObObjType) (data : ObIntegerData) (datum : ObDatum) : ObIntegerData :=
  match datum with
  | .value v =>
    let cell := t.castToUint64 v
    { min := if less t.isIntSC cell data.min then cell else data.min
      max := if less t.isIntSC data.max cell then cell else data.max }
  | .null | .nop => data

def traverseCells (t : ObObjType) (datums : List ObDatum) : ObIntegerData :=
  datums.foldl (traverseCell t) (init t)

def maxDelta (t : ObObjType) (data : ObIntegerData) : BitVec 64 :=
  if less t.isIntSC data.min data.max then data.max - data.min else 0

def maxUnsignValue (t : ObObjType) (data : ObIntegerData) : BitVec 64 :=
  if t.isIntSC && data.min.slt 0 then BitVec.allOnes 64 else data.max

end ObIntegerData

/-- `get_packing_size`: whether to pack bits, and the number of bits or of bytes. -/
def getPackingSize (v : BitVec 64) : Bool × Nat :=
  let bitSize := if v = 0 then 1 else v.toNat.log2 + 1
  let size := bitSize / 8
  let ext := bitSize % 8
  if ext = 0 then (false, size)
  else if 8 - ext < size / 2 + 1 then (false, size + 1)
  else (true, bitSize)

structure EncoderDesc where
  hasNull : Bool
  hasNope : Bool
  needExtendValueBitStore : Bool
  bitPackingLength : Nat
  fixDataLength : Nat
deriving DecidableEq, Repr

/-- `traverse`: the description of the column if it is suitable.  The sizes are compared as
unsigned 64-bit numbers. -/
def traverse (t : ObObjType) (datums : List ObDatum) : Option EncoderDesc :=
  let data := ObIntegerData.traverseCells t datums
  let delta := data.maxDelta t
  let maxValue := data.maxUnsignValue t
  if delta = 0 then none
  else
    let (origPacking, orig) := getPackingSize maxValue
    let origSize := if origPacking then orig else orig * 8
    let (bitPacking, deltaLen) := getPackingSize delta
    let deltaSize := if bitPacking then deltaLen else deltaLen * 8
    if (((origSize : Int) - deltaSize) * datums.length) % 2 ^ 64 > (2 + t.typeSize) * 8 then
      let hasNull := datums.any (· == .null)
      let hasNope := datums.any (· == .nop)
      some {
        hasNull := hasNull
        hasNope := hasNope
        needExtendValueBitStore := hasNull || hasNope
        bitPackingLength := if bitPacking then deltaSize else 0
        fixDataLength := if bitPacking then 0 else deltaSize / 8 }
    else none

/-- The width of the marks of nulls and nops in a block with these columns. -/
def detectExtendValueBit (descs : List EncoderDesc) : Nat :=
  go 0 descs
where
  go (extendValueBit : Nat) : List EncoderDesc → Nat
    | [] => extendValueBit
    | desc :: rest =>
      if desc.hasNull || desc.hasNope then
        if desc.hasNope then 2 else go 1 rest
      else go extendValueBit rest

/-- A loop over the cells of a column, each at a position of its own. -/
def storeCells (put : (Nat → BitVec 8) → Nat → ObDatum → (Nat → BitVec 8)) (step : Nat) :
    List ObDatum → Nat → (Nat → BitVec 8) → (Nat → BitVec 8)
  | [], _, buf => buf
  | datum :: rest, pos, buf => storeCells put step rest (pos + step) (put buf pos datum)

def putExtend (buf : Nat → BitVec 8) (pos : Nat) (datum : ObDatum) : Nat → BitVec 8 :=
  ObBitStream.memorySafeSetShort buf pos datum.storedExtValue

def putPacked (len : Nat) (delta : BitVec 64 → BitVec 64) (buf : Nat → BitVec 8) (pos : Nat)
    (datum : ObDatum) : Nat → BitVec 8 :=
  match datum with
  | .value v => ObBitStream.memorySafeSet buf pos len (delta v)
  | .null | .nop => buf

def putFixed (len : Nat) (delta : BitVec 64 → BitVec 64) (buf : Nat → BitVec 8) (pos : Nat)
    (datum : ObDatum) : Nat → BitVec 8 :=
  match datum with
  | .value v => copyTo buf pos len (delta v)
  | .null | .nop => buf

namespace EncoderDesc

/-- `calc_fix_data_size`: the bytes of the bits, and of the whole data. -/
def calcFixDataSize (desc : EncoderDesc) (extendValueBit rowCount : Nat) : Nat × Nat :=
  let bits := (if desc.needExtendValueBitStore then extendValueBit * rowCount else 0) +
    desc.bitPackingLength * rowCount
  let bitsSize := (bits + 7) / 8
  (bitsSize, bitsSize + desc.fixDataLength * rowCount)

def storeFixBits (desc : EncoderDesc) (extendValueBit : Nat) (delta : BitVec 64 → BitVec 64)
    (datums : List ObDatum) (buf : Nat → BitVec 8) : Nat → BitVec 8 :=
  let buf := if desc.needExtendValueBitStore then
    storeCells putExtend extendValueBit datums 0 buf else buf
  let pos := if desc.needExtendValueBitStore then extendValueBit * datums.length else 0
  if 0 < desc.bitPackingLength then
    storeCells (putPacked desc.bitPackingLength delta) desc.bitPackingLength datums pos buf
  else buf

/-- `fill_fixed_data`, from the place the data starts at. -/
def fillFixedData (desc : EncoderDesc) (extendValueBit : Nat) (delta : BitVec 64 → BitVec 64)
    (datums : List ObDatum) (buf : Nat → BitVec 8) : Nat → BitVec 8 :=
  let (bitDataSize, fixDataSize) := desc.calcFixDataSize extendValueBit datums.length
  let buf := fillZero buf 0 (fixDataSize + 8)
  let buf := if 0 < bitDataSize then desc.storeFixBits extendValueBit delta datums buf else buf
  if 0 < desc.fixDataLength then
    storeCells (putFixed desc.fixDataLength delta) desc.fixDataLength datums bitDataSize buf
  else buf

end EncoderDesc

/-- What the headers of the block and of the column say. -/
structure ObColumnDecoderCtx where
  objType : ObObjType
  hasExtendValue : Bool
  isBitPacking : Bool
  length : Nat
  rowCount : Nat
  extendValueBit : Nat
deriving DecidableEq, Repr

/-- `store_meta`, from the place the meta starts at. -/
def storeMeta (t : ObObjType) (base : BitVec 64) (buf : Nat → BitVec 8) : Nat → BitVec 8 :=
  copyTo (fillZero buf 0 (2 + t.typeSize)) 2 t.typeSize base

/-- The field of the header that `store_fix_data` sets. -/
def EncoderDesc.width (desc : EncoderDesc) : Nat :=
  if 0 < desc.bitPackingLength then desc.bitPackingLength else desc.fixDataLength

/-- `store_meta` and `store_fix_data` of a suitable column. -/
def encode (t : ObObjType) (desc : EncoderDesc) (extendValueBit : Nat) (datums : List ObDatum)
    (buf : Nat → BitVec 8) : ObColumnDecoderCtx × (Nat → BitVec 8) :=
  let base := (ObIntegerData.traverseCells t datums).min
  let length := 2 + t.typeSize
  let buf := copyTo (storeMeta t base buf) 1 1 (BitVec.ofNat 64 desc.width)
  let data := desc.fillFixedData extendValueBit (fun v => t.castToUint64 v - base) datums
    (fun p => buf (length + p))
  ({ objType := t
     hasExtendValue := desc.needExtendValueBitStore
     isBitPacking := 0 < desc.bitPackingLength
     length := length
     rowCount := datums.length
     extendValueBit := extendValueBit },
    fun p => if p < length then buf p else data (p - length))

/-! ### Where the cells are -/

section

variable {put : (Nat → BitVec 8) → Nat → ObDatum → (Nat → BitVec 8)} {step : Nat}
  {word : ObDatum → BitVec 64}

theorem bit_storeCells (hstep : 0 < step) (datums : List ObDatum)
    (hput : ∀ datum ∈ datums, ∀ buf pos i, bit (put buf pos datum) i =
      (bit buf i || (decide (pos ≤ i) && (word datum).getLsbD (i - pos))))
    (habove : ∀ datum ∈ datums, ∀ j, step ≤ j → (word datum).getLsbD j = false)
    (pos : Nat) (buf : Nat → BitVec 8) (i : Nat) :
    bit (storeCells put step datums pos buf) i = (bit buf i || (decide (pos ≤ i) &&
        ((datums.map word).getD ((i - pos) / step) 0).getLsbD ((i - pos) % step))) := by
  induction datums generalizing pos buf with
  | nil => simp [storeCells]
  | cons datum rest ih =>
    rw [storeCells, ih (fun d hd => hput d (mem_cons_of_mem _ hd))
      (fun d hd => habove d (mem_cons_of_mem _ hd)), hput datum mem_cons_self,
      Bool.or_assoc]
    congr 1
    by_cases hlow : pos ≤ i
    · by_cases hown : i < pos + step
      · have hdiv : (i - pos) / step = 0 := div_eq_of_lt (by omega)
        have hmod : (i - pos) % step = i - pos := mod_eq_of_lt (by omega)
        rw [decide_eq_true hlow, decide_eq_false (by omega : ¬ pos + step ≤ i), hdiv, hmod]
        simp
      have hdiv : (i - pos) / step = (i - (pos + step)) / step + 1 := by
        rw [← add_div_right _ hstep]
        congr 1
        omega
      have hmod : (i - pos) % step = (i - (pos + step)) % step := by
        rw [← add_mod_right (i - (pos + step)) step]
        congr 1
        omega
      rw [decide_eq_true hlow, decide_eq_true (by omega : pos + step ≤ i), hdiv, hmod,
        habove datum mem_cons_self _ (by omega)]
      simp
    · rw [decide_eq_false hlow, decide_eq_false (by omega : ¬ pos + step ≤ i)]
      simp

theorem field_storeCells (hstep : 0 < step) {datums : List ObDatum}
    (hput : ∀ datum ∈ datums, ∀ buf pos i, bit (put buf pos datum) i =
      (bit buf i || (decide (pos ≤ i) && (word datum).getLsbD (i - pos))))
    (habove : ∀ datum ∈ datums, ∀ j, step ≤ j → (word datum).getLsbD j = false) {pos : Nat}
    {buf : Nat → BitVec 8} {row : Nat} {datum : ObDatum} (hrow : datums[row]? = some datum)
    (hclear : ∀ j < step, bit buf (pos + row * step + j) = false) :
    Field (storeCells put step datums pos buf) (pos + row * step) step (word datum) where
  bits := by
    intro j hj
    have hindex : pos + row * step + j - pos = step * row + j := by
      rw [Nat.mul_comm row step]
      omega
    rw [bit_storeCells hstep datums hput habove, hclear j hj, Bool.false_or, hindex,
      decide_eq_true (by omega : pos ≤ pos + row * step + j), mul_add_div hstep,
      div_eq_of_lt hj, mul_add_mod, mod_eq_of_lt hj]
    simp [hrow]
  above := habove datum (mem_of_getElem? hrow)

theorem storeCells_below (datums : List ObDatum)
    (hput : ∀ buf pos p datum, p < pos → put buf pos datum p = buf p)
    {pos p : Nat} (hp : p < pos) (buf : Nat → BitVec 8) :
    storeCells put step datums pos buf p = buf p := by
  induction datums generalizing pos buf with
  | nil => rfl
  | cons datum rest ih => rw [storeCells, ih (by omega), hput _ _ _ _ hp]

end

theorem putFixed_below {len pos p : Nat} {delta : BitVec 64 → BitVec 64}
    (buf : Nat → BitVec 8) (datum : ObDatum) (hp : p < pos) :
    putFixed len delta buf pos datum p = buf p := by
  cases datum with
  | null | nop => rfl
  | value => exact if_neg (by omega)

theorem field_storeFixed {len : Nat} {delta : BitVec 64 → BitVec 64} {datums : List ObDatum}
    {row : Nat} {v : BitVec 64} (hrow : datums[row]? = some (.value v))
    (habove : ∀ j, 8 * len ≤ j → (delta v).getLsbD j = false) (pos : Nat) (buf : Nat → BitVec 8) :
    Field (storeCells (putFixed len delta) len datums pos buf)
      (8 * (pos + row * len)) (8 * len) (delta v) := by
  induction datums generalizing row pos buf with
  | nil => simp at hrow
  | cons datum rest ih =>
    cases row with
    | zero =>
      cases hrow
      rw [Nat.zero_mul, Nat.add_zero, storeCells]
      refine (field_copyTo buf pos habove).congr ?_
      intro j hj
      exact bit_congr (storeCells_below rest (fun _ _ _ _ => putFixed_below _ _)
        (by omega) _)
    | succ row =>
      have hindex : pos + (row + 1) * len = pos + len + row * len := by
        rw [Nat.add_mul, Nat.one_mul]
        omega
      rw [hindex]
      exact ih hrow (pos + len) _

/-! ### The data of a column -/

/-- The bit the differences start at, when they are packed. -/
def dataOffset (needExtendValueBitStore : Bool) (extendValueBit rowCount : Nat) : Nat :=
  if needExtendValueBitStore then extendValueBit * rowCount else 0

namespace EncoderDesc

variable {desc : EncoderDesc} {extendValueBit : Nat} {delta : BitVec 64 → BitVec 64}
  {datums : List ObDatum} {row : Nat} {datum : ObDatum} {v : BitVec 64}

/-- What a packed cell adds to the bits. -/
def packedWord (delta : BitVec 64 → BitVec 64) : ObDatum → BitVec 64
  | .value v => delta v
  | .null | .nop => 0

theorem bit_putExtend (hext : extendValueBit ≤ 57)
    (habove : ∀ j, extendValueBit ≤ j → datum.storedExtValue.getLsbD j = false)
    (buf : Nat → BitVec 8) (pos i : Nat) :
    bit (putExtend buf pos datum) i =
      (bit buf i || (decide (pos ≤ i) && datum.storedExtValue.getLsbD (i - pos))) := by
  rw [putExtend, ObBitStream.memorySafeSetShort_eq buf pos _ hext,
    ObBitStream.bit_memorySafeSet _ _ habove]

theorem bit_putPacked {len : Nat}
    (habove : ∀ j, len ≤ j → (packedWord delta datum).getLsbD j = false)
    (buf : Nat → BitVec 8) (pos i : Nat) :
    bit (putPacked len delta buf pos datum) i =
      (bit buf i || (decide (pos ≤ i) && (packedWord delta datum).getLsbD (i - pos))) := by
  cases datum with
  | null | nop => simp [putPacked, packedWord]
  | value => exact ObBitStream.bit_memorySafeSet _ _ habove _

/-- A word below `2 ^ len` has no bits from `len` on. -/
theorem getLsbD_above {len : Nat} {w : BitVec 64} (hw : w.toNat < 2 ^ len) :
    ∀ j, len ≤ j → w.getLsbD j = false := fun _ hj =>
  testBit_lt_two_pow (Nat.lt_of_lt_of_le hw (Nat.pow_le_pow_right (by decide) hj))

/-- The widths in the description are wide enough for the cells. -/
structure Fits (desc : EncoderDesc) (extendValueBit : Nat) (delta : BitVec 64 → BitVec 64)
    (datums : List ObDatum) : Prop where
  extend_le : extendValueBit ≤ 57
  extend_pos : desc.needExtendValueBitStore = true → 0 < extendValueBit
  extend : ∀ datum ∈ datums, datum.storedExtValue.toNat < 2 ^ extendValueBit
  plain : desc.needExtendValueBitStore = false → ∀ datum ∈ datums, ∃ v, datum = .value v
  packed_le : desc.bitPackingLength ≤ 64
  fixed_le : desc.fixDataLength ≤ 8
  one : 0 < desc.bitPackingLength ∧ desc.fixDataLength = 0 ∨
    desc.bitPackingLength = 0 ∧ 0 < desc.fixDataLength
  packed : 0 < desc.bitPackingLength → ∀ v, .value v ∈ datums →
    (delta v).toNat < 2 ^ desc.bitPackingLength
  fixed : 0 < desc.fixDataLength → ∀ v, .value v ∈ datums →
    (delta v).toNat < 2 ^ (8 * desc.fixDataLength)

namespace Fits

theorem row_end_le {row count w : Nat} (hlt : row < count) : row * w + w ≤ w * count := by
  rw [← succ_mul, Nat.mul_comm]
  exact Nat.mul_le_mul_left _ hlt

section

variable (h : desc.Fits extendValueBit delta datums)

include h

theorem packed_above (hpacked : 0 < desc.bitPackingLength) (hmem : datum ∈ datums) :
    ∀ j, desc.bitPackingLength ≤ j → (packedWord delta datum).getLsbD j = false := by
  cases datum with
  | null | nop => simp [packedWord]
  | value v => exact getLsbD_above (h.packed hpacked v hmem)

/-- The bits from the end of the marks on are clear until the differences are stored. -/
theorem clear_extend {buf : Nat → BitVec 8} {i : Nat} (hclear : bit buf i = false)
    (hi : dataOffset desc.needExtendValueBitStore extendValueBit datums.length ≤ i) :
    bit (if desc.needExtendValueBitStore then
      storeCells putExtend extendValueBit datums 0 buf else buf) i = false := by
  cases hneed : desc.needExtendValueBitStore with
  | false => simpa using hclear
  | true =>
    rw [hneed] at hi
    have hpos := h.extend_pos hneed
    rw [if_pos rfl, bit_storeCells hpos datums
      (fun d hd => bit_putExtend h.extend_le (getLsbD_above (h.extend d hd)))
      (fun d hd => getLsbD_above (h.extend d hd)), hclear]
    have hrow : datums.length ≤ i / extendValueBit := by
      rw [Nat.le_div_iff_mul_le hpos, Nat.mul_comm]
      exact hi
    simp [List.getElem?_eq_none hrow]

theorem field_extend (hneed : desc.needExtendValueBitStore = true)
    (hrow : datums[row]? = some datum) (buf : Nat → BitVec 8) :
    Field (desc.fillFixedData extendValueBit delta datums buf) (row * extendValueBit)
      extendValueBit datum.storedExtValue := by
  have hpos := h.extend_pos hneed
  have hlt : row < datums.length := (List.getElem?_eq_some_iff.mp hrow).1
  have hend := row_end_le (w := extendValueBit) hlt
  have hbits : 0 < (desc.calcFixDataSize extendValueBit datums.length).1 := by
    simp only [calcFixDataSize, hneed, if_true]
    omega
  have hsize : 8 * (desc.calcFixDataSize extendValueBit datums.length).1 ≥
      extendValueBit * datums.length := by
    simp only [calcFixDataSize, hneed, if_true]
    omega
  have htotal : (desc.calcFixDataSize extendValueBit datums.length).1 ≤
      (desc.calcFixDataSize extendValueBit datums.length).2 := by
    simp [calcFixDataSize]
  unfold fillFixedData
  generalize desc.calcFixDataSize extendValueBit datums.length = sizes at hbits hsize htotal
  obtain ⟨bitDataSize, fixDataSize⟩ := sizes
  simp only [storeFixBits, hneed, if_true, hbits]
  have hfield : Field (storeCells putExtend extendValueBit datums 0
      (fillZero buf 0 (fixDataSize + 8))) (0 + row * extendValueBit) extendValueBit
        datum.storedExtValue := by
    apply field_storeCells hpos
      (fun d hd => bit_putExtend h.extend_le (getLsbD_above (h.extend d hd)))
      (fun d hd => getLsbD_above (h.extend d hd)) hrow
    intro j hj
    exact bit_fillZero_of_lt (by omega)
  rw [Nat.zero_add] at hfield
  refine hfield.congr ?_
  intro j hj
  rcases h.one with ⟨hpacked, hfixed⟩ | ⟨hpacked, hfixed⟩
  · simp only [hfixed, hpacked, if_true, Nat.lt_irrefl, if_false]
    rw [bit_storeCells hpacked datums (fun d hd => bit_putPacked (h.packed_above hpacked hd))
      (fun d hd => h.packed_above hpacked hd),
      decide_eq_false (by omega), Bool.false_and, Bool.or_false]
  · simp only [hfixed, hpacked, if_true, Nat.lt_irrefl, if_false]
    exact bit_congr (storeCells_below datums (fun _ _ _ _ => putFixed_below _ _) (by omega) _)

theorem field_packed (hpacked : 0 < desc.bitPackingLength) (hrow : datums[row]? = some (.value v))
    (buf : Nat → BitVec 8) :
    Field (desc.fillFixedData extendValueBit delta datums buf)
      (dataOffset desc.needExtendValueBitStore extendValueBit datums.length +
        row * desc.bitPackingLength) desc.bitPackingLength (delta v) := by
  have hlt : row < datums.length := (List.getElem?_eq_some_iff.mp hrow).1
  have hfixed : desc.fixDataLength = 0 := by
    rcases h.one with hone | hone
    · exact hone.2
    · omega
  have hend := row_end_le (w := desc.bitPackingLength) hlt
  have hsize : dataOffset desc.needExtendValueBitStore extendValueBit datums.length +
      desc.bitPackingLength * datums.length ≤
      8 * (desc.calcFixDataSize extendValueBit datums.length).1 := by
    simp only [calcFixDataSize, dataOffset]
    omega
  have htotal : (desc.calcFixDataSize extendValueBit datums.length).1 ≤
      (desc.calcFixDataSize extendValueBit datums.length).2 := by
    simp [calcFixDataSize]
  unfold fillFixedData
  generalize desc.calcFixDataSize extendValueBit datums.length = sizes at hsize htotal
  obtain ⟨bitDataSize, fixDataSize⟩ := sizes
  have hbits : 0 < bitDataSize := by
    omega
  simp only [storeFixBits, hbits, hpacked, hfixed, if_true, Nat.lt_irrefl, if_false]
  apply field_storeCells hpacked
    (fun d hd => bit_putPacked (h.packed_above hpacked hd))
    (fun d hd => h.packed_above hpacked hd) hrow
  intro j hj
  exact h.clear_extend (bit_fillZero_of_lt (by unfold dataOffset at hsize; omega))
    (by unfold dataOffset; omega)

theorem field_fixed (hpacked : desc.bitPackingLength = 0) (hrow : datums[row]? = some (.value v))
    (buf : Nat → BitVec 8) :
    Field (desc.fillFixedData extendValueBit delta datums buf)
      (8 * ((dataOffset desc.needExtendValueBitStore extendValueBit datums.length + 7) / 8 +
        row * desc.fixDataLength)) (8 * desc.fixDataLength) (delta v) := by
  have hfixed : 0 < desc.fixDataLength := by
    rcases h.one with hone | hone
    · omega
    · exact hone.2
  have hstart : (desc.calcFixDataSize extendValueBit datums.length).1 =
      (dataOffset desc.needExtendValueBitStore extendValueBit datums.length + 7) / 8 := by
    simp [calcFixDataSize, dataOffset, hpacked]
  rw [← hstart]
  unfold fillFixedData
  simp only [hfixed, if_true]
  exact field_storeFixed hrow
    (getLsbD_above (h.fixed hfixed v (mem_of_getElem? hrow))) _ _

end

end Fits

end EncoderDesc

end SeekDB.IntegerBaseDiff
