/-
Filters on integer columns that are stored as differences from a base
(ob_integer_base_diff_decoder.cpp, and the null bitmap of
ob_icolumn_decoder.cpp): the rows are compared without being decoded, and the
result is the one for the decoded values.
-/
import SeekDB.IntegerBaseDiffDecoder

namespace SeekDB.IntegerBaseDiff

open List Option BitMemory WordOrder

inductive ObWhiteFilterOperatorType
  | eq
  | le
  | lt
  | ge
  | gt
  | ne
  | bt
  | isIn
  | nu
  | nn
deriving DecidableEq, Repr

/-- A filter with its constants, which are not null, and their type. -/
structure ObWhiteFilterExecutor where
  opType : ObWhiteFilterOperatorType
  valMeta : ObObjType
  datums : List (BitVec 64)
deriving DecidableEq, Repr

/-- The rows of a block a filter is asked about. -/
structure PushdownFilterInfo where
  start : Nat
  count : Nat
deriving DecidableEq, Repr

/-- Comparison of two datums of the same signedness. -/
def cmpFunc (signed : Bool) (left right : BitVec 64) : Int :=
  if less signed left right then -1 else if less signed right left then 1 else 0

/-- `get_filter_cmp_ret_func`. -/
def ObWhiteFilterOperatorType.cmpByRet (op : ObWhiteFilterOperatorType) (cmpRet : Int) : Bool :=
  match op with
  | .eq => cmpRet = 0
  | .le => cmpRet ≤ 0
  | .lt => cmpRet < 0
  | .ge => cmpRet ≥ 0
  | .gt => cmpRet > 0
  | .ne => cmpRet ≠ 0
  | .bt | .isIn | .nu | .nn => false

/-- `UINT_DIFF_CMP`. -/
def uintDiffCmp (l r : BitVec 64) : Int := if l = r then 0 else if l.ult r then -1 else 1

namespace ObBitmap

/-- `load_blocks_from_array`: whole blocks that are mixed only set bits. -/
def loadBlocksFromArray (bitmap : List Bool) (blocks : Nat → BitVec 64) (numBytes : Nat) :
    List Bool :=
  (List.range numBytes).map fun i =>
    if i < numBytes / 64 * 64 then
      let mask := blocks (i / 64)
      if mask = BitVec.allOnes 64 then true
      else if mask = 0 then false
      else if mask.getLsbD (i % 64) then true else bitmap.getD i false
    else (blocks (numBytes / 64)).getLsbD (i - numBytes / 64 * 64)

def popcnt (bitmap : List Bool) : Nat := bitmap.count true

end ObBitmap

/-- `get_is_null_bitmap_from_fixed_column`: one bit for each row, 64 at a time.  A column with
marks is not asked for an empty range of rows. -/
def getIsNullBitmap (ctx : ObColumnDecoderCtx) (block : Nat → BitVec 8) (info : PushdownFilterInfo)
    (bitmap : List Bool) : Option (List Bool) :=
  if info.count ≠ bitmap.length then none
  else if ctx.hasExtendValue then
    if info.count = 0 then none
    else some (ObBitmap.loadBlocksFromArray bitmap
      (fun i => ObBitStream.get (ctx.colData block) (info.start + i * 64) 64) info.count)
  else some bitmap

/-- The loop over the rows of a filter: rows the parent skips keep their bit, null rows lose
it, and a row gets its bit when it is to be kept. -/
def scanRows (parent : Option (Nat → Bool)) (keep : Nat → Bool) (bitmap : List Bool) :
    List Bool :=
  let nullValueContained := ObBitmap.popcnt bitmap > 0
  bitmap.mapIdx fun offset old =>
    if parent.any (· offset) then old
    else if nullValueContained ∧ old then false
    else if keep offset then true
    else old

namespace ObIntegerBaseDiffDecoder

/-- `get_delta` of a constant, for a signed or an unsigned column. -/
def getDelta (decoder : ObIntegerBaseDiffDecoder) (signed : Bool) (objType : ObObjType)
    (datum : BitVec 64) : BitVec 64 :=
  let value := datum &&& objType.mask
  (if signed then extend (~~~objType.mask) value else value) - decoder.base

def comparisonOperator (decoder : ObIntegerBaseDiffDecoder) (parent : Option (Nat → Bool))
    (ctx : ObColumnDecoderCtx) (block : Nat → BitVec 8) (filter : ObWhiteFilterExecutor)
    (info : PushdownFilterInfo) (bitmap : List Bool) : Option (List Bool) :=
  match filter.datums with
  | [refDatum] =>
    if info.count ≠ bitmap.length then none
    else if cmpFunc ctx.objType.isIntSC decoder.base refDatum > 0 then
      -- the constant is below every value
      if filter.opType = .ge ∨ filter.opType = .gt ∨ filter.opType = .ne then
        some (bitmap.map (!·))
      else some (bitmap.map fun _ => false)
    else
      let paramDelta := decoder.getDelta ctx.objType.isIntSC filter.valMeta refDatum
      some (scanRows parent (fun offset => filter.opType.cmpByRet
        (uintDiffCmp (decoder.readDelta ctx block (offset + info.start)) paramDelta)) bitmap)
  | _ => none

/-- `traverse_all_data`, with the test for one decoded value. -/
def traverseAllData (decoder : ObIntegerBaseDiffDecoder) (parent : Option (Nat → Bool))
    (ctx : ObColumnDecoderCtx) (block : Nat → BitVec 8) (info : PushdownFilterInfo)
    (bitmap : List Bool) (test : BitVec 64 → Bool) : List Bool :=
  scanRows parent (fun offset =>
    test (decoder.base + decoder.readDelta ctx block (offset + info.start))) bitmap

def btOperator (decoder : ObIntegerBaseDiffDecoder) (parent : Option (Nat → Bool))
    (ctx : ObColumnDecoderCtx) (block : Nat → BitVec 8) (filter : ObWhiteFilterExecutor)
    (info : PushdownFilterInfo) (bitmap : List Bool) : Option (List Bool) :=
  match filter.datums with
  | [left, right] =>
    if info.count ≠ bitmap.length then none
    else some (decoder.traverseAllData parent ctx block info bitmap fun cur =>
      cmpFunc ctx.objType.isIntSC cur left ≥ 0 ∧ cmpFunc ctx.objType.isIntSC cur right ≤ 0)
  | _ => none

/-- `in_operator`, with the set of constants as a list. -/
def inOperator (decoder : ObIntegerBaseDiffDecoder) (parent : Option (Nat → Bool))
    (ctx : ObColumnDecoderCtx) (block : Nat → BitVec 8) (filter : ObWhiteFilterExecutor)
    (info : PushdownFilterInfo) (bitmap : List Bool) : Option (List Bool) :=
  if filter.datums.length = 0 ∨ info.count ≠ bitmap.length then none
  else some (decoder.traverseAllData parent ctx block info bitmap fun cur =>
    filter.datums.any fun datum => cmpFunc ctx.objType.isIntSC cur datum = 0)

def pushdownOperator (decoder : ObIntegerBaseDiffDecoder) (parent : Option (Nat → Bool))
    (ctx : ObColumnDecoderCtx) (block : Nat → BitVec 8) (filter : ObWhiteFilterExecutor)
    (info : PushdownFilterInfo) (bitmap : List Bool) : Option (List Bool) :=
  (getIsNullBitmap ctx block info bitmap).bind fun bitmap =>
    match filter.opType with
    | .nu => some bitmap
    | .nn => some (bitmap.map (!·))
    | .eq | .le | .lt | .ge | .gt | .ne =>
      decoder.comparisonOperator parent ctx block filter info bitmap
    | .bt => decoder.btOperator parent ctx block filter info bitmap
    | .isIn => decoder.inOperator parent ctx block filter info bitmap

end ObIntegerBaseDiffDecoder

/-! ### What a filter means -/

namespace ObWhiteFilterExecutor

/-- The predicate of a filter, on the numbers the words stand for. -/
def accepts (filter : ObWhiteFilterExecutor) (signed : Bool) (datum : ObDatum) : Bool :=
  match datum with
  | .null | .nop => filter.opType = .nu
  | .value v =>
    let x := ord signed v
    match filter.opType, filter.datums.map (ord signed) with
    | .eq, [c] => x = c
    | .le, [c] => x ≤ c
    | .lt, [c] => x < c
    | .ge, [c] => c ≤ x
    | .gt, [c] => c < x
    | .ne, [c] => x ≠ c
    | .bt, [low, high] => low ≤ x ∧ x ≤ high
    | .isIn, constants => x ∈ constants
    | .nn, _ => true
    | _, _ => false

/-- The filter has the constants its operator takes, of its type and the signedness of the
column. -/
structure WellFormed (filter : ObWhiteFilterExecutor) (signed : Bool) : Prop where
  signed_eq : filter.valMeta.isIntSC = signed
  holds : ∀ c ∈ filter.datums, filter.valMeta.Holds c
  arity : match filter.opType with
    | .eq | .le | .lt | .ge | .gt | .ne => filter.datums.length = 1
    | .bt => filter.datums.length = 2
    | .isIn => filter.datums ≠ []
    | .nu | .nn => True

end ObWhiteFilterExecutor

section

variable {signed : Bool} {datums : List ObDatum} {info : PushdownFilterInfo}
  {bitmap : List Bool} {parent : Option (Nat → Bool)} {keep : Nat → Bool} {i : Nat}
  {datum : ObDatum}

theorem cmpFunc_pos (signed : Bool) (a b : BitVec 64) :
    cmpFunc signed a b > 0 ↔ ord signed b < ord signed a := by
  unfold cmpFunc
  split_ifs with hless hgreater
  · have := less_iff.mp hless
    omega
  · have := less_iff.mp hgreater
    omega
  · rw [less_iff] at hgreater
    omega

theorem cmpFunc_neg (signed : Bool) (a b : BitVec 64) :
    cmpFunc signed a b < 0 ↔ ord signed a < ord signed b := by
  unfold cmpFunc
  split_ifs with hless hgreater
  · have := less_iff.mp hless
    omega
  · rw [less_iff] at hless
    omega
  · rw [less_iff] at hless
    omega

/-- The bitmap of the nulls among the rows of the window. -/
structure NullBits (datums : List ObDatum) (info : PushdownFilterInfo) (bitmap : List Bool) :
    Prop where
  length_eq : bitmap.length = info.count
  bits : ∀ i < info.count, ∃ datum, datums[info.start + i]? = some datum ∧
    bitmap[i]? = some (datum == .null)

theorem NullBits.getElem? (h : NullBits datums info bitmap) (hi : i < info.count)
    (hrow : datums[info.start + i]? = some datum) : bitmap[i]? = some (datum == .null) := by
  obtain ⟨datum', hdatum, hbit⟩ := h.bits i hi
  rw [hrow] at hdatum
  rw [some_inj.mp hdatum, hbit]

/-- A loop over the rows decides about the rows with a value that are not skipped. -/
theorem NullBits.scanRows (h : NullBits datums info bitmap) (hi : i < info.count)
    (hrow : datums[info.start + i]? = some datum) (hskip : parent.any (· i) = false) :
    (scanRows parent keep bitmap)[i]? = some (datum != .null && keep i) := by
  have hbit := h.getElem? hi hrow
  unfold IntegerBaseDiff.scanRows
  rw [List.getElem?_mapIdx, hbit, map_some, hskip]
  cases hnull : datum == .null with
  | true =>
    rw [hnull] at hbit
    have hcount : 0 < ObBitmap.popcnt bitmap :=
      count_pos_iff.mpr (mem_of_getElem? hbit)
    simp [hcount, bne, hnull]
  | false => cases hkeep : keep i <;> simp [bne, hnull]

/-- The result is that of the predicate, for all rows that are not skipped. -/
structure Decides (filter : ObWhiteFilterExecutor) (signed : Bool) (datums : List ObDatum)
    (info : PushdownFilterInfo) (parent : Option (Nat → Bool)) (out : List Bool) : Prop where
  length_eq : out.length = info.count
  bits : ∀ i < info.count, parent.any (· i) = false →
    ∃ datum, datums[info.start + i]? = some datum ∧ out[i]? = some (filter.accepts signed datum)

variable {filter : ObWhiteFilterExecutor}

theorem NullBits.decides_scanRows (h : NullBits datums info bitmap)
    (hnop : ∀ datum ∈ datums, datum ≠ .nop) (hop : filter.opType ≠ .nu)
    (hkeep : ∀ i < info.count, ∀ v, datums[info.start + i]? = some (.value v) →
      keep i = filter.accepts signed (.value v)) :
    Decides filter signed datums info parent (IntegerBaseDiff.scanRows parent keep bitmap) where
  length_eq := by simp [IntegerBaseDiff.scanRows, h.length_eq]
  bits := by
    intro i hi hskip
    obtain ⟨datum, hrow, -⟩ := h.bits i hi
    refine ⟨datum, hrow, ?_⟩
    rw [h.scanRows hi hrow hskip]
    cases datum with
    | null => simp [ObWhiteFilterExecutor.accepts, hop]
    | nop => exact absurd rfl (hnop _ (mem_of_getElem? hrow))
    | value v => simp [hkeep i hi v hrow, bne, BEq.beq]

theorem NullBits.decides_map (h : NullBits datums info bitmap)
    (hnop : ∀ datum ∈ datums, datum ≠ .nop) {f : Bool → Bool}
    (hnull : f true = filter.accepts signed .null)
    (hvalue : ∀ v, .value v ∈ datums → f false = filter.accepts signed (.value v)) :
    Decides filter signed datums info parent (bitmap.map f) where
  length_eq := by rw [length_map, h.length_eq]
  bits := by
    intro i hi _
    obtain ⟨datum, hrow, hbit⟩ := h.bits i hi
    refine ⟨datum, hrow, ?_⟩
    rw [List.getElem?_map, hbit, map_some]
    cases datum with
    | null => rw [← hnull]; rfl
    | nop => exact absurd rfl (hnop _ (mem_of_getElem? hrow))
    | value v => rw [← hvalue v (mem_of_getElem? hrow)]; rfl

theorem getElem?_loadBlocksFromArray (blocks : Nat → BitVec 64) {n : Nat} (hi : i < n) :
    (ObBitmap.loadBlocksFromArray (List.replicate n false) blocks n)[i]? =
      some ((blocks (i / 64)).getLsbD (i % 64)) := by
  unfold ObBitmap.loadBlocksFromArray
  rw [List.getElem?_map, List.getElem?_range hi, map_some]
  dsimp only
  split_ifs with hblock hones hzero hbit
  · rw [hones, BitVec.getLsbD_allOnes, decide_eq_true (Nat.mod_lt _ (by decide))]
  · rw [hzero]
    simp
  · rw [hbit]
  · simp [hi, hbit]
  · have hdiv : i / 64 = n / 64 := by omega
    have hmod : i % 64 = i - n / 64 * 64 := by omega
    rw [hdiv, hmod]

end

namespace Layout

variable {t : ObObjType} {datums : List ObDatum} {ctx : ObColumnDecoderCtx} {base : BitVec 64}
  {width : Nat} {block : Nat → BitVec 8} {info : PushdownFilterInfo} {bitmap : List Bool}
  {parent : Option (Nat → Bool)} {filter : ObWhiteFilterExecutor}

theorem nullBits (h : Layout t datums ctx base width block) (hnop : ∀ datum ∈ datums, datum ≠ .nop)
    (hbit : ctx.hasExtendValue = true → ctx.extendValueBit = 1) (hcount : 0 < info.count)
    (hwindow : info.start + info.count ≤ datums.length) :
    ∃ bitmap, getIsNullBitmap ctx block info (List.replicate info.count false) = some bitmap ∧
      NullBits datums info bitmap := by
  have hrow : ∀ i < info.count, ∃ datum, datums[info.start + i]? = some datum := fun i hi =>
    ⟨_, List.getElem?_eq_getElem (by omega)⟩
  unfold getIsNullBitmap
  rw [if_neg (by simp)]
  cases hext : ctx.hasExtendValue with
  | true =>
    rw [if_pos rfl, if_neg (by omega)]
    refine ⟨_, rfl, by simp [ObBitmap.loadBlocksFromArray], ?_⟩
    intro i hi
    obtain ⟨datum, hdatum⟩ := hrow i hi
    refine ⟨datum, hdatum, ?_⟩
    have hmark := (h.extend hext _ datum hdatum).bits 0 (by rw [hbit hext]; decide)
    rw [hbit hext, Nat.mul_one, Nat.add_zero] at hmark
    have hindex : info.start + i / 64 * 64 + i % 64 = info.start + i := by omega
    rw [getElem?_loadBlocksFromArray _ hi, ObBitStream.getLsbD_get _ _ le_rfl,
      decide_eq_true (Nat.mod_lt _ (by decide)), Bool.true_and, hindex]
    change some (bit (fun p => block (ctx.length + p)) (info.start + i)) = _
    rw [hmark]
    cases datum with
    | null => rfl
    | nop => exact absurd rfl (hnop _ (mem_of_getElem? hdatum))
    | value => simp [ObDatum.storedExtValue, BEq.beq]
  | false =>
    refine ⟨_, rfl, by simp, ?_⟩
    intro i hi
    obtain ⟨datum, hdatum⟩ := hrow i hi
    obtain ⟨v, rfl⟩ := h.plain hext datum (mem_of_getElem? hdatum)
    exact ⟨_, hdatum, by simp [hi, BEq.beq]⟩

theorem getDelta_eq (hfilter : filter.WellFormed t.isIntSC) {c : BitVec 64}
    (hc : c ∈ filter.datums) :
    ObIntegerBaseDiffDecoder.getDelta ⟨width, base⟩ t.isIntSC filter.valMeta c = c - base := by
  have hcast := filter.valMeta.castToUint64_eq (hfilter.holds c hc)
  unfold ObObjType.castToUint64 ObObjType.reverseMask at hcast
  rw [hfilter.signed_eq] at hcast
  cases hsigned : t.isIntSC with
  | true =>
    rw [hsigned] at hcast
    exact congrArg (· - base) hcast
  | false =>
    rw [hsigned, WordOrder.extend, if_neg (by simp)] at hcast
    exact congrArg (· - base) hcast

theorem uintDiffCmp_eq {signed : Bool} {v c : BitVec 64} (hv : ord signed base ≤ ord signed v)
    (hc : ord signed base ≤ ord signed c) :
    uintDiffCmp (v - base) (c - base) =
      if ord signed v < ord signed c then -1 else if ord signed c < ord signed v then 1 else 0 := by
  have hsubV := toNat_sub_of_le hv
  have hsubC := toNat_sub_of_le hc
  have hult : ((v - base).ult (c - base) = true) ↔ ord signed v < ord signed c := by
    rw [BitVec.ult_iff_lt, BitVec.lt_def]
    omega
  have heq : v - base = c - base ↔ ord signed v = ord signed c := by
    rw [← BitVec.toNat_inj]
    omega
  unfold uintDiffCmp
  simp only [hult, heq]
  split_ifs <;> omega

section

variable (h : Layout t datums ctx base width block) (hnop : ∀ datum ∈ datums, datum ≠ .nop)

include h hnop

theorem decides_comparison (hbits : NullBits datums info bitmap)
    (hfilter : filter.WellFormed t.isIntSC) {c : BitVec 64} (hc : filter.datums = [c])
    (hop : filter.opType = .eq ∨ filter.opType = .le ∨ filter.opType = .lt ∨
      filter.opType = .ge ∨ filter.opType = .gt ∨ filter.opType = .ne) :
    ∃ out, ObIntegerBaseDiffDecoder.comparisonOperator ⟨width, base⟩ parent ctx block filter info
      bitmap = some out ∧ Decides filter t.isIntSC datums info parent out := by
  unfold ObIntegerBaseDiffDecoder.comparisonOperator
  rw [hc, h.objType]
  dsimp only
  rw [if_neg (not_not.mpr hbits.length_eq.symm)]
  have hnu : filter.opType ≠ .nu := by rcases hop with h | h | h | h | h | h <;> simp [h]
  by_cases hbelow : cmpFunc t.isIntSC base c > 0
  · rw [if_pos hbelow]
    rw [cmpFunc_pos] at hbelow
    have habove : ∀ v, .value v ∈ datums → ord t.isIntSC c < ord t.isIntSC v := fun v hv =>
      hbelow.trans_le (h.values v hv).2
    split_ifs with hall
    · refine ⟨_, rfl, hbits.decides_map hnop (by simp [ObWhiteFilterExecutor.accepts, hnu]) ?_⟩
      intro v hv
      have hlt := habove v hv
      rcases hall with hall | hall | hall <;>
        simp [ObWhiteFilterExecutor.accepts, hall, hc, hlt, hlt.le, hlt.ne']
    refine ⟨_, rfl, hbits.decides_map hnop (by simp [ObWhiteFilterExecutor.accepts, hnu]) ?_⟩
    intro v hv
    have hlt := habove v hv
    rcases hop with hop | hop | hop | hop | hop | hop <;>
      simp_all [ObWhiteFilterExecutor.accepts, hlt.ne', hlt.not_ge, hlt.not_gt]
  · rw [if_neg hbelow]
    rw [cmpFunc_pos, not_lt] at hbelow
    refine ⟨_, rfl, hbits.decides_scanRows hnop hnu ?_⟩
    intro i hi v hrow
    have hv := (h.values v (mem_of_getElem? hrow)).2
    rw [Nat.add_comm i, h.readDelta_eq hrow, getDelta_eq hfilter (by simp [hc]),
      uintDiffCmp_eq hv hbelow]
    rcases hop with hop | hop | hop | hop | hop | hop <;>
      simp only [ObWhiteFilterExecutor.accepts, ObWhiteFilterOperatorType.cmpByRet, hop, hc,
        map_cons, map_nil, decide_eq_decide] <;>
      split_ifs <;> first | omega | (rw [false_iff]; omega)

theorem decides_traverse
    (hbits : NullBits datums info bitmap) (hnu : filter.opType ≠ .nu) {test : BitVec 64 → Bool}
    (htest : ∀ v, test v = filter.accepts t.isIntSC (.value v)) :
    Decides filter t.isIntSC datums info parent
      (ObIntegerBaseDiffDecoder.traverseAllData ⟨width, base⟩ parent ctx block info bitmap
        test) := by
  refine hbits.decides_scanRows hnop hnu ?_
  intro i hi v hrow
  rw [Nat.add_comm i, h.readDelta_eq hrow, BitVec.add_comm, BitVec.sub_add_cancel, htest]

theorem decides_bt (hbits : NullBits datums info bitmap)
    {low high : BitVec 64} (hconstants : filter.datums = [low, high]) (hop : filter.opType = .bt) :
    ∃ out, ObIntegerBaseDiffDecoder.btOperator ⟨width, base⟩ parent ctx block filter info
      bitmap = some out ∧ Decides filter t.isIntSC datums info parent out := by
  unfold ObIntegerBaseDiffDecoder.btOperator
  rw [hconstants, h.objType]
  dsimp only
  rw [if_neg (not_not.mpr hbits.length_eq.symm)]
  refine ⟨_, rfl, h.decides_traverse hnop hbits (by simp [hop]) ?_⟩
  intro v
  have hlow := cmpFunc_neg t.isIntSC v low
  have hhigh := cmpFunc_pos t.isIntSC v high
  simp only [ObWhiteFilterExecutor.accepts, hop, hconstants, map_cons, map_nil, decide_eq_decide]
  omega

theorem decides_in (hbits : NullBits datums info bitmap)
    (hconstants : filter.datums ≠ []) (hop : filter.opType = .isIn) :
    ∃ out, ObIntegerBaseDiffDecoder.inOperator ⟨width, base⟩ parent ctx block filter info
      bitmap = some out ∧ Decides filter t.isIntSC datums info parent out := by
  unfold ObIntegerBaseDiffDecoder.inOperator
  have hlength := hbits.length_eq
  rw [if_neg (by rw [length_eq_zero_iff]; simp [hconstants, hlength]), h.objType]
  refine ⟨_, rfl, h.decides_traverse hnop hbits (by simp [hop]) ?_⟩
  intro v
  have hzero : ∀ c, cmpFunc t.isIntSC v c = 0 ↔ ord t.isIntSC v = ord t.isIntSC c := by
    intro c
    have hneg := cmpFunc_neg t.isIntSC v c
    have hpos := cmpFunc_pos t.isIntSC v c
    omega
  simp only [ObWhiteFilterExecutor.accepts, hop, hzero]
  rw [Bool.eq_iff_iff, List.any_eq_true, decide_eq_true_eq, List.mem_map]
  constructor
  · rintro ⟨c, hc, heq⟩
    exact ⟨c, hc, (of_decide_eq_true heq).symm⟩
  · rintro ⟨c, hc, heq⟩
    exact ⟨c, hc, decide_eq_true heq.symm⟩

theorem decides_pushdown
    (hbit : ctx.hasExtendValue = true → ctx.extendValueBit = 1) (hcount : 0 < info.count)
    (hwindow : info.start + info.count ≤ datums.length) (hfilter : filter.WellFormed t.isIntSC) :
    ∃ out, (ObIntegerBaseDiffDecoder.init ctx block).pushdownOperator parent ctx block filter info
      (List.replicate info.count false) = some out ∧
        Decides filter t.isIntSC datums info parent out := by
  obtain ⟨bitmap, hbitmap, hbits⟩ := h.nullBits hnop hbit hcount hwindow
  rw [h.init_eq, ObIntegerBaseDiffDecoder.pushdownOperator, hbitmap, bind_some]
  have harity := hfilter.arity
  have hcompare : filter.datums.length = 1 → (filter.opType = .eq ∨ filter.opType = .le ∨
      filter.opType = .lt ∨ filter.opType = .ge ∨ filter.opType = .gt ∨ filter.opType = .ne) →
      ∃ out, ObIntegerBaseDiffDecoder.comparisonOperator ⟨width, base⟩ parent ctx block filter
        info bitmap = some out ∧ Decides filter t.isIntSC datums info parent out := by
    intro hlength hop
    obtain ⟨c, hc⟩ := length_eq_one_iff.mp hlength
    exact h.decides_comparison hnop hbits hfilter hc hop
  cases hop : filter.opType with
  | eq | le | lt | ge | gt | ne => exact hcompare (by simpa [hop] using harity) (by simp [hop])
  | bt =>
    have hlength : filter.datums.length = 2 := by simpa [hop] using harity
    obtain ⟨low, high, hconstants⟩ := length_eq_two.mp hlength
    exact h.decides_bt hnop hbits hconstants hop
  | isIn => exact h.decides_in hnop hbits (by simpa [hop] using harity) hop
  | nu =>
    refine ⟨bitmap, rfl, ?_⟩
    have hmap : Decides filter t.isIntSC datums info parent (bitmap.map id) :=
      hbits.decides_map hnop (by simp [ObWhiteFilterExecutor.accepts, hop])
        (fun v _ => by simp [ObWhiteFilterExecutor.accepts, hop])
    rwa [List.map_id] at hmap
  | nn =>
    exact ⟨_, rfl, hbits.decides_map hnop (by simp [ObWhiteFilterExecutor.accepts, hop])
      (fun v _ => by simp [ObWhiteFilterExecutor.accepts, hop])⟩

end

end Layout

/-- A column of values and nulls is read back row by row and in batches, and in a block without
nops every filter decides about each row that its parent does not skip as its predicate does for
the value of the row.  Only the bytes of the column count.  With a nop in another column the
extend value of a row has two bits, but the filter reads the null bitmap of a column of fixed
length one bit per row. -/
theorem column_faithful (t : ObObjType) (datums : List ObDatum) (desc : EncoderDesc)
    (before after : List EncoderDesc) (buf block : Nat → BitVec 8)
    (hvalues : ∀ datum ∈ datums, datum = .null ∨ ∃ v, datum = .value v ∧ t.Holds v)
    (hsuitable : traverse t datums = some desc)
    (hblock : ∀ p < 2 + t.typeSize + (desc.calcFixDataSize
      (detectExtendValueBit (before ++ desc :: after)) datums.length).2,
      block p = (encode t desc (detectExtendValueBit (before ++ desc :: after)) datums buf).2 p) :
    let ctx := (encode t desc (detectExtendValueBit (before ++ desc :: after)) datums buf).1
    let decoder := ObIntegerBaseDiffDecoder.init ctx block
    (∀ row datum old, datums[row]? = some datum → decoder.decode ctx block old row = datum) ∧
      (∀ rowIds : List Nat, (∀ rowId ∈ rowIds, rowId < datums.length) →
        decoder.batchDecode ctx block rowIds = rowIds.mapM (datums[·]?)) ∧
      ((∀ other ∈ before ++ after, other.hasNope = false) →
        ∀ (filter : ObWhiteFilterExecutor) (parent : Option (Nat → Bool))
        (info : PushdownFilterInfo), filter.WellFormed t.isIntSC → 0 < info.count →
        info.start + info.count ≤ datums.length →
        ∃ out, decoder.pushdownOperator parent ctx block filter info
          (List.replicate info.count false) = some out ∧
            Decides filter t.isIntSC datums info parent out) := by
  have hnop : ∀ datum ∈ datums, datum ≠ .nop := by
    intro datum hdatum
    rcases hvalues datum hdatum with rfl | ⟨v, rfl, -⟩ <;> simp
  have hholds : ∀ v, .value v ∈ datums → t.Holds v := by
    intro v hv
    obtain ⟨w, hw, hholds⟩ := (hvalues _ hv).resolve_left (by simp)
    obtain rfl := ObDatum.value.inj hw
    exact hholds
  obtain ⟨-, hnull, hnope, hneed, -⟩ := traverse_cases hsuitable
  have hnoNope : desc.hasNope = false := by
    rw [hnope, List.any_eq_false]
    intro datum hdatum
    simpa using hnop datum hdatum
  obtain ⟨hpos, hmarks⟩ := marks_lt hsuitable
    (mem_append_right before mem_cons_self)
  have hdetect := detectExtendValueBit_eq (before ++ desc :: after)
  have htwo : detectExtendValueBit (before ++ desc :: after) ≤ 2 := by
    rw [hdetect]
    split_ifs <;> decide
  have hlayout := encode_layout hholds hsuitable (htwo.trans (by decide)) hpos hmarks hblock
  refine ⟨fun row datum old hrow => hlayout.decode_eq hrow old,
    fun rowIds hrows => hlayout.batchDecode_eq hnop hrows, ?_⟩
  intro hblockNop filter parent info hfilter hcount hwindow
  have hblockNope : (before ++ desc :: after).any (·.hasNope) = false := by
    rw [List.any_eq_false]
    intro other hother
    rw [mem_append, mem_cons] at hother
    rcases hother with hother | rfl | hother
    · simp [hblockNop other (mem_append_left _ hother)]
    · simp [hnoNope]
    · simp [hblockNop other (mem_append_right _ hother)]
  rw [hblockNope, if_neg (by decide)] at hdetect
  have hle : detectExtendValueBit (before ++ desc :: after) ≤ 1 := by
    rw [hdetect]
    split_ifs <;> decide
  refine hlayout.decides_pushdown hnop ?_ hcount hwindow hfilter
  intro hext
  have hone := hpos hext
  change detectExtendValueBit (before ++ desc :: after) = 1
  omega

theorem column_faithful_three :
    let datums : List ObDatum := [.value (-3), .null, .value (-1)]
    let desc : EncoderDesc := ⟨true, false, true, 2, 0⟩
    let enc := encode .tinyInt desc (detectExtendValueBit ([] ++ [desc])) datums (fun _ => 0)
    let decoder := ObIntegerBaseDiffDecoder.init enc.1 enc.2
    decoder.decode enc.1 enc.2 .null 2 = .value (-1) ∧
      decoder.batchDecode enc.1 enc.2 [2, 1] = some [.value (-1), .null] ∧
      ∃ out, decoder.pushdownOperator none enc.1 enc.2 ⟨.lt, .tinyInt, [-2]⟩ ⟨0, 3⟩
        [false, false, false] = some out ∧ out[0]? = some true ∧ out[1]? = some false ∧
          out[2]? = some false := by
  intro datums desc enc
  have h := column_faithful .tinyInt datums desc [] [] (fun _ => 0) enc.2
    (by
      intro datum hdatum
      simp only [datums, mem_cons, not_mem_nil, or_false] at hdatum
      rcases hdatum with rfl | rfl | rfl
      · exact .inr ⟨_, rfl, by decide⟩
      · exact .inl rfl
      · exact .inr ⟨_, rfl, by decide⟩)
    (by decide +kernel) (fun p _ => rfl)
  obtain ⟨hdecode, hbatch, hfilter⟩ := h
  refine ⟨hdecode 2 (.value (-1)) .null rfl, (hbatch [2, 1] (by decide)).trans rfl, ?_⟩
  have hwell : ObWhiteFilterExecutor.WellFormed ⟨.lt, .tinyInt, [-2]⟩ true :=
    ⟨rfl, forall_mem_singleton.mpr (by decide), rfl⟩
  obtain ⟨out, hout, hdecides⟩ := hfilter (by simp) ⟨.lt, .tinyInt, [-2]⟩ none ⟨0, 3⟩ hwell
    (by decide) (by decide)
  refine ⟨out, hout, ?_, ?_, ?_⟩
  · obtain ⟨datum, hrow, hbit⟩ := hdecides.bits 0 (by decide) rfl
    cases hrow
    rw [hbit]
    decide
  · obtain ⟨datum, hrow, hbit⟩ := hdecides.bits 1 (by decide) rfl
    cases hrow
    rw [hbit]
    decide
  · obtain ⟨datum, hrow, hbit⟩ := hdecides.bits 2 (by decide) rfl
    cases hrow
    rw [hbit]
    decide

end SeekDB.IntegerBaseDiff
