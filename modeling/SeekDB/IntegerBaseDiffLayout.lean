/-
The layout of a column of differences: the base is the smallest value, every
difference fits into the width that was chosen, and all parts of the column are
found where the headers say.
-/
import SeekDB.IntegerBaseDiff

namespace SeekDB.IntegerBaseDiff

open List Nat BitMemory WordOrder

namespace ObObjType

/-- The word is a value of the type. -/
def Holds (t : ObObjType) (v : BitVec 64) : Prop := InRange t.isIntSC (8 * t.typeSize) v

instance (t : ObObjType) (v : BitVec 64) : Decidable (t.Holds v) :=
  inferInstanceAs (Decidable (InRange _ _ _))

variable {t : ObObjType} {v : BitVec 64}

theorem typeSize_pos (t : ObObjType) : 0 < t.typeSize := by cases t <;> decide

theorem typeSize_le (t : ObObjType) : t.typeSize ≤ 8 := by cases t <;> decide

theorem mask_eq (t : ObObjType) : t.mask = BitVec.ofNat 64 (2 ^ (8 * t.typeSize) - 1) := by
  cases t <;> rfl

theorem castToUint64_eq (h : t.Holds v) : t.castToUint64 v = v := by
  unfold castToUint64 reverseMask
  unfold Holds at h
  rw [mask_eq]
  cases hsigned : t.isIntSC with
  | true =>
    rw [hsigned] at h
    have hpos := t.typeSize_pos
    exact h.extend_and_mask (by omega)
  | false =>
    rw [hsigned] at h
    rw [h.and_mask, extend]
    simp

theorem ord_le_init (t : ObObjType) (v : BitVec 64) :
    ord t.isIntSC v ≤ ord t.isIntSC (ObIntegerData.init t).min := by
  have hlt := v.isLt
  unfold ObIntegerData.init
  cases t.isIntSC with
  | true =>
    change v.toInt ≤ (BitVec.intMax 64).toInt
    have hmax : (BitVec.intMax 64).toInt = 2 ^ 63 - 1 := by decide
    have hv := BitVec.toInt_lt (x := v)
    rw [hmax]
    omega
  | false =>
    change (v.toNat : Int) ≤ ((BitVec.allOnes 64).toNat : Int)
    rw [BitVec.toNat_allOnes]
    omega

end ObObjType

namespace ObIntegerData

variable {t : ObObjType} {data : ObIntegerData} {datums : List ObDatum} {v : BitVec 64}

/-- The bounds after some cells: they enclose the bounds before and the cells. -/
structure Encloses (t : ObObjType) (datums : List ObDatum) (before after : ObIntegerData) :
    Prop where
  min_le : ord t.isIntSC after.min ≤ ord t.isIntSC before.min
  le_max : ord t.isIntSC before.max ≤ ord t.isIntSC after.max
  cell : ∀ v, .value v ∈ datums →
    ord t.isIntSC after.min ≤ ord t.isIntSC v ∧ ord t.isIntSC v ≤ ord t.isIntSC after.max
  min_mem : after.min = before.min ∨ .value after.min ∈ datums

theorem encloses_cell (h : t.Holds v) (before : ObIntegerData) :
    Encloses t [.value v] before (traverseCell t before (.value v)) := by
  simp only [traverseCell, ObObjType.castToUint64_eq h]
  have hmin : ∀ m, ord t.isIntSC (if less t.isIntSC v m then v else m) ≤ ord t.isIntSC m ∧
      ord t.isIntSC (if less t.isIntSC v m then v else m) ≤ ord t.isIntSC v := by
    intro m
    split_ifs with hless
    · exact ⟨(less_iff.mp hless).le, le_rfl⟩
    · exact ⟨le_rfl, less_eq_false_iff.mp (Bool.not_eq_true _ ▸ hless)⟩
  have hmax : ∀ m, ord t.isIntSC m ≤ ord t.isIntSC (if less t.isIntSC m v then v else m) ∧
      ord t.isIntSC v ≤ ord t.isIntSC (if less t.isIntSC m v then v else m) := by
    intro m
    split_ifs with hless
    · exact ⟨(less_iff.mp hless).le, le_rfl⟩
    · exact ⟨le_rfl, less_eq_false_iff.mp (Bool.not_eq_true _ ▸ hless)⟩
  refine ⟨(hmin _).1, (hmax _).1, ?_, ?_⟩
  · intro w hw
    obtain rfl : w = v := by simpa using hw
    exact ⟨(hmin _).2, (hmax _).2⟩
  · by_cases hless : less t.isIntSC v before.min = true
    · exact .inr (by simp [hless])
    · exact .inl (if_neg hless)

section

variable (hvalues : ∀ v, .value v ∈ datums → t.Holds v)

include hvalues

theorem encloses_foldl (before : ObIntegerData) :
    Encloses t datums before (datums.foldl (traverseCell t) before) := by
  induction datums generalizing before with
  | nil => exact ⟨le_rfl, le_rfl, by simp, .inl rfl⟩
  | cons datum rest ih =>
    have hrest := ih (fun v hv => hvalues v (mem_cons_of_mem _ hv))
      (traverseCell t before datum)
    cases datum with
    | null | nop => exact ⟨hrest.min_le, hrest.le_max, by simpa using hrest.cell,
        hrest.min_mem.imp_right (mem_cons_of_mem _)⟩
    | value v =>
      have hcell := encloses_cell (hvalues v mem_cons_self) before
      refine ⟨hrest.min_le.trans hcell.min_le, hcell.le_max.trans hrest.le_max, ?_, ?_⟩
      · intro w hw
        rcases mem_cons.mp hw with hw | hw
        · have hown := hcell.cell w (by simp [hw])
          exact ⟨hrest.min_le.trans hown.1, hown.2.trans hrest.le_max⟩
        · exact hrest.cell w hw
      rcases hrest.min_mem with hmin | hmin
      · rcases hcell.min_mem with hfirst | hfirst
        · exact .inl (hmin.trans hfirst)
        · exact .inr (mem_cons.mpr (.inl (by rw [foldl_cons, hmin]; simpa using hfirst)))
      · exact .inr (mem_cons_of_mem _ hmin)

theorem min_mem_of_maxDelta (hdelta : (traverseCells t datums).maxDelta t ≠ 0) :
    .value (traverseCells t datums).min ∈ datums ∧
      ord t.isIntSC (traverseCells t datums).min < ord t.isIntSC (traverseCells t datums).max := by
  have hencloses := encloses_foldl hvalues (init t)
  have hless : less t.isIntSC (traverseCells t datums).min (traverseCells t datums).max = true := by
    by_contra hnot
    exact hdelta (if_neg hnot)
  rw [less_iff] at hless
  refine ⟨?_, hless⟩
  rcases hencloses.min_mem with hmin | hmin
  · have hbound := t.ord_le_init (traverseCells t datums).max
    change (traverseCells t datums).min = _ at hmin
    rw [hmin] at hless
    omega
  · exact hmin

theorem toNat_sub_min_le
    (hdelta : (traverseCells t datums).maxDelta t ≠ 0) (hv : .value v ∈ datums) :
    (v - (traverseCells t datums).min).toNat ≤ ((traverseCells t datums).maxDelta t).toNat := by
  have hless := (min_mem_of_maxDelta hvalues hdelta).2
  obtain ⟨hmin, hmax⟩ := (encloses_foldl hvalues (init t)).cell v hv
  have hmaxDelta : (traverseCells t datums).maxDelta t =
      (traverseCells t datums).max - (traverseCells t datums).min := if_pos (less_iff.mpr hless)
  have hsub := toNat_sub_of_le hmin
  have hsubMax := toNat_sub_of_le hless.le
  rw [hmaxDelta]
  change ord t.isIntSC v ≤ ord t.isIntSC (traverseCells t datums).max at hmax
  change ((v - (traverseCells t datums).min).toNat : Int) =
    ord t.isIntSC v - ord t.isIntSC (traverseCells t datums).min at hsub
  omega

end

end ObIntegerData

theorem getPackingSize_spec (v : BitVec 64) :
    (∃ size, getPackingSize v = (true, size) ∧ 0 < size ∧ size ≤ 64 ∧ v.toNat < 2 ^ size) ∨
      ∃ size, getPackingSize v = (false, size) ∧ 0 < size ∧ size ≤ 8 ∧
        v.toNat < 2 ^ (8 * size) := by
  obtain ⟨bitSize, hbitSize, hpos, hle, hlt⟩ : ∃ bitSize,
      (if v = 0 then 1 else v.toNat.log2 + 1) = bitSize ∧ 0 < bitSize ∧ bitSize ≤ 64 ∧
        v.toNat < 2 ^ bitSize := by
    by_cases hzero : v = 0
    · exact ⟨1, if_pos hzero, by decide, by decide, by simp [hzero]⟩
    · refine ⟨v.toNat.log2 + 1, if_neg hzero, succ_pos _, ?_, lt_log2_self⟩
      have hne : v.toNat ≠ 0 := fun h => hzero (BitVec.eq_of_toNat_eq (by simpa using h))
      exact (log2_lt hne).mpr v.isLt
  unfold getPackingSize
  rw [hbitSize]
  dsimp only
  split_ifs with hext hwaste
  · refine .inr ⟨_, rfl, by omega, by omega, ?_⟩
    rwa [(by omega : 8 * (bitSize / 8) = bitSize)]
  · exact .inr ⟨_, rfl, by omega, by omega,
      hlt.trans_le (Nat.pow_le_pow_right (by decide) (by omega))⟩
  · exact .inl ⟨_, rfl, hpos, hle, hlt⟩

/-- What `traverse` decides for a suitable column. -/
theorem traverse_cases {t : ObObjType} {datums : List ObDatum} {desc : EncoderDesc}
    (h : traverse t datums = some desc) :
    (ObIntegerData.traverseCells t datums).maxDelta t ≠ 0 ∧
      desc.hasNull = datums.any (· == .null) ∧ desc.hasNope = datums.any (· == .nop) ∧
      desc.needExtendValueBitStore = (desc.hasNull || desc.hasNope) ∧
      (0 < desc.bitPackingLength ∧ desc.bitPackingLength ≤ 64 ∧ desc.fixDataLength = 0 ∧
          ((ObIntegerData.traverseCells t datums).maxDelta t).toNat < 2 ^ desc.bitPackingLength ∨
        desc.bitPackingLength = 0 ∧ 0 < desc.fixDataLength ∧ desc.fixDataLength ≤ 8 ∧
          ((ObIntegerData.traverseCells t datums).maxDelta t).toNat <
            2 ^ (8 * desc.fixDataLength)) := by
  unfold traverse at h
  dsimp only at h
  by_cases hdelta : (ObIntegerData.traverseCells t datums).maxDelta t = 0
  · rw [if_pos hdelta] at h
    cases h
  rw [if_neg hdelta] at h
  obtain ⟨-, h⟩ := Option.ite_none_right_eq_some.mp h
  cases h
  refine ⟨hdelta, rfl, rfl, rfl, ?_⟩
  rcases getPackingSize_spec ((ObIntegerData.traverseCells t datums).maxDelta t) with
    ⟨size, hsize, hpos, hle, hlt⟩ | ⟨size, hsize, hpos, hle, hlt⟩
  · exact .inl ⟨by simpa [hsize] using hpos, by simpa [hsize] using hle, by simp [hsize],
      by simpa [hsize] using hlt⟩
  · exact .inr ⟨by simp [hsize], by simpa [hsize] using hpos, by simpa [hsize] using hle,
      by simpa [hsize] using hlt⟩

theorem detectExtendValueBit_eq (descs : List EncoderDesc) : detectExtendValueBit descs =
      if descs.any (·.hasNope) then 2 else if descs.any (·.hasNull) then 1 else 0 := by
  have hgo : ∀ extendValueBit, detectExtendValueBit.go extendValueBit descs =
      if descs.any (·.hasNope) then 2 else if descs.any (·.hasNull) then 1
        else extendValueBit := by
    induction descs with
    | nil => intro _; rfl
    | cons desc rest ih =>
      intro extendValueBit
      rw [detectExtendValueBit.go, ih, ih, any_cons, any_cons]
      cases desc.hasNope <;> cases desc.hasNull <;> simp
  exact hgo 0

theorem marks_lt {desc : EncoderDesc} {t : ObObjType} {datums : List ObDatum}
    {descs : List EncoderDesc} (h : traverse t datums = some desc) (hmem : desc ∈ descs) :
    (desc.needExtendValueBitStore = true → 0 < detectExtendValueBit descs) ∧
      ∀ datum ∈ datums, datum.storedExtValue.toNat < 2 ^ detectExtendValueBit descs := by
  obtain ⟨-, hnull, hnope, hneed, -⟩ := traverse_cases h
  have hanyNope : desc.hasNope = true → descs.any (·.hasNope) = true := fun hn =>
    any_eq_true.mpr ⟨desc, hmem, hn⟩
  have hanyNull : desc.hasNull = true → descs.any (·.hasNull) = true := fun hn =>
    any_eq_true.mpr ⟨desc, hmem, hn⟩
  rw [detectExtendValueBit_eq]
  constructor
  · intro hmarks
    rw [hneed, Bool.or_eq_true] at hmarks
    rcases hmarks with hmarks | hmarks
    · simp only [hanyNull hmarks, if_true]
      split_ifs <;> decide
    · simp only [hanyNope hmarks, if_true]
      decide
  · intro datum hdatum
    cases datum with
    | value => exact Nat.pow_pos (by decide)
    | null =>
      have hmark : desc.hasNull = true := by
        rw [hnull]
        exact any_eq_true.mpr ⟨.null, hdatum, rfl⟩
      simp only [hanyNull hmark, if_true]
      split_ifs <;> decide
    | nop =>
      have hmark : desc.hasNope = true := by
        rw [hnope]
        exact any_eq_true.mpr ⟨.nop, hdatum, rfl⟩
      simp only [hanyNope hmark, if_true]
      decide

/-- The bytes of a column in a block, and what they say. -/
structure Layout (t : ObObjType) (datums : List ObDatum) (ctx : ObColumnDecoderCtx)
    (base : BitVec 64) (width : Nat) (block : Nat → BitVec 8) : Prop where
  objType : ctx.objType = t
  rowCount : ctx.rowCount = datums.length
  widthByte : (block 1).toNat = width
  width_le : width ≤ 64
  fixed_le : ctx.isBitPacking = false → width ≤ 8
  baseField : Field block (8 * 2) (8 * t.typeSize) (base &&& t.mask)
  baseHolds : t.Holds base
  values : ∀ v, .value v ∈ datums → t.Holds v ∧ ord t.isIntSC base ≤ ord t.isIntSC v
  plain : ctx.hasExtendValue = false → ∀ datum ∈ datums, ∃ v, datum = .value v
  extend_le : ctx.extendValueBit ≤ 57
  extend : ctx.hasExtendValue = true → ∀ row datum, datums[row]? = some datum →
    Field (fun p => block (ctx.length + p)) (row * ctx.extendValueBit) ctx.extendValueBit
      datum.storedExtValue
  packed : ctx.isBitPacking = true → ∀ row v, datums[row]? = some (.value v) →
    Field (fun p => block (ctx.length + p))
      (dataOffset ctx.hasExtendValue ctx.extendValueBit datums.length + row * width) width
      (v - base)
  fixed : ctx.isBitPacking = false → ∀ row v, datums[row]? = some (.value v) →
    Field (fun p => block (ctx.length + p))
      (8 * ((dataOffset ctx.hasExtendValue ctx.extendValueBit datums.length + 7) / 8 +
        row * width)) (8 * width) (v - base)

section

variable {t : ObObjType} {datums : List ObDatum} {desc : EncoderDesc} {extendValueBit : Nat}

theorem fits_of_traverse (hvalues : ∀ v, .value v ∈ datums → t.Holds v)
    (h : traverse t datums = some desc) (hle : extendValueBit ≤ 57)
    (hext : desc.needExtendValueBitStore = true → 0 < extendValueBit)
    (hmarks : ∀ datum ∈ datums, datum.storedExtValue.toNat < 2 ^ extendValueBit) :
    desc.Fits extendValueBit
      (fun v => t.castToUint64 v - (ObIntegerData.traverseCells t datums).min) datums := by
  obtain ⟨hdelta, hnull, hnope, hneed, hwidth⟩ := traverse_cases h
  have hdeltas : ∀ v, .value v ∈ datums →
      (t.castToUint64 v - (ObIntegerData.traverseCells t datums).min).toNat ≤
        ((ObIntegerData.traverseCells t datums).maxDelta t).toNat := by
    intro v hv
    rw [t.castToUint64_eq (hvalues v hv)]
    exact ObIntegerData.toNat_sub_min_le hvalues hdelta hv
  refine ⟨hle, hext, hmarks, ?_, ?_, ?_, ?_, ?_, ?_⟩
  · intro hplain datum hdatum
    rw [hneed, Bool.or_eq_false_iff, hnull, hnope] at hplain
    cases datum with
    | null => simpa using any_eq_false.mp hplain.1 _ hdatum
    | nop => simpa using any_eq_false.mp hplain.2 _ hdatum
    | value v => exact ⟨v, rfl⟩
  · rcases hwidth with hpacked | hfixed
    · exact hpacked.2.1
    · omega
  · rcases hwidth with hpacked | hfixed
    · omega
    · exact hfixed.2.2.1
  · rcases hwidth with hpacked | hfixed
    · exact .inl ⟨hpacked.1, hpacked.2.2.1⟩
    · exact .inr ⟨hfixed.1, hfixed.2.1⟩
  · intro hpos v hv
    rcases hwidth with hpacked | hfixed
    · exact (hdeltas v hv).trans_lt hpacked.2.2.2
    · omega
  · intro hpos v hv
    rcases hwidth with hpacked | hfixed
    · omega
    · exact (hdeltas v hv).trans_lt hfixed.2.2.2

theorem encode_meta (t : ObObjType) (desc : EncoderDesc) (extendValueBit : Nat)
    (datums : List ObDatum) (buf : Nat → BitVec 8) {p : Nat} (hp : p < 2 + t.typeSize) :
    (encode t desc extendValueBit datums buf).2 p =
      copyTo (storeMeta t (ObIntegerData.traverseCells t datums).min buf) 1 1
        (BitVec.ofNat 64 desc.width) p :=
  if_pos hp

theorem encode_data (t : ObObjType) (desc : EncoderDesc) (extendValueBit : Nat)
    (datums : List ObDatum) (buf : Nat → BitVec 8) :
    ∃ rest, ∀ p, (encode t desc extendValueBit datums buf).2 (2 + t.typeSize + p) =
      desc.fillFixedData extendValueBit
        (fun v => t.castToUint64 v - (ObIntegerData.traverseCells t datums).min) datums rest p := by
  refine ⟨fun p => copyTo (storeMeta t (ObIntegerData.traverseCells t datums).min buf) 1 1
    (BitVec.ofNat 64 desc.width) (2 + t.typeSize + p), fun p => ?_⟩
  have hnot : ¬ 2 + t.typeSize + p < 2 + t.typeSize := by omega
  have hindex : 2 + t.typeSize + p - (2 + t.typeSize) = p := by omega
  change (if 2 + t.typeSize + p < 2 + t.typeSize then _ else _) = _
  rw [if_neg hnot, hindex]

/-- A block that holds the bytes of the encoded column has the layout of the column. -/
theorem encode_layout (hvalues : ∀ v, .value v ∈ datums → t.Holds v)
    (h : traverse t datums = some desc) (hle : extendValueBit ≤ 57)
    (hext : desc.needExtendValueBitStore = true → 0 < extendValueBit)
    (hmarks : ∀ datum ∈ datums, datum.storedExtValue.toNat < 2 ^ extendValueBit)
    {buf block : Nat → BitVec 8}
    (hblock : ∀ p < 2 + t.typeSize + (desc.calcFixDataSize extendValueBit datums.length).2,
      block p = (encode t desc extendValueBit datums buf).2 p) :
    Layout t datums (encode t desc extendValueBit datums buf).1
      (ObIntegerData.traverseCells t datums).min desc.width block := by
  have hfits := fits_of_traverse hvalues h hle hext hmarks
  obtain ⟨hdelta, -⟩ := traverse_cases h
  obtain ⟨hbase, -⟩ := ObIntegerData.min_mem_of_maxDelta hvalues hdelta
  have hencloses := ObIntegerData.encloses_foldl hvalues (ObIntegerData.init t)
  have hsize := t.typeSize_pos
  have hwidth : desc.width ≤ 64 := by
    have hpacked := hfits.packed_le
    have hfixed := hfits.fixed_le
    unfold EncoderDesc.width
    split_ifs <;> omega
  have hbits : dataOffset desc.needExtendValueBitStore extendValueBit datums.length +
      desc.bitPackingLength * datums.length ≤
        8 * (desc.calcFixDataSize extendValueBit datums.length).1 := by
    simp only [EncoderDesc.calcFixDataSize, dataOffset]
    omega
  have htotal : (desc.calcFixDataSize extendValueBit datums.length).2 =
      (desc.calcFixDataSize extendValueBit datums.length).1 +
        desc.fixDataLength * datums.length := rfl
  obtain ⟨rest, hrest⟩ := encode_data t desc extendValueBit datums buf
  have hdata : ∀ i, i < 8 * (desc.calcFixDataSize extendValueBit datums.length).2 →
      bit (fun p => block (2 + t.typeSize + p)) i = bit (desc.fillFixedData extendValueBit
          (fun v => t.castToUint64 v - (ObIntegerData.traverseCells t datums).min) datums
          rest) i := by
    intro i hi
    exact bit_congr ((hblock _ (by omega)).trans (hrest _))
  have hrowEnd : ∀ row (datum : ObDatum) len, datums[row]? = some datum →
      row * len + len ≤ len * datums.length := by
    intro row datum len hrow
    rw [← succ_mul, Nat.mul_comm]
    exact Nat.mul_le_mul_left _ (List.getElem?_eq_some_iff.mp hrow).1
  have hdeltas : ∀ (row : Nat) (v : BitVec 64), datums[row]? = some (.value v) →
      t.castToUint64 v - (ObIntegerData.traverseCells t datums).min =
        v - (ObIntegerData.traverseCells t datums).min := by
    intro row v hrow
    rw [t.castToUint64_eq (hvalues v (mem_of_getElem? hrow))]
  constructor
  case objType => rfl
  case rowCount => rfl
  case widthByte =>
    rw [hblock 1 (by omega), encode_meta _ _ _ _ _ (by omega)]
    simp only [copyTo, byteOf]
    simp
    omega
  case width_le => exact hwidth
  case fixed_le =>
    intro hpacking
    have hpacked : ¬ 0 < desc.bitPackingLength := by simpa [encode] using hpacking
    rw [EncoderDesc.width, if_neg hpacked]
    exact hfits.fixed_le
  case baseField =>
    refine (field_copyTo_mask (fillZero buf 0 (2 + t.typeSize)) 2 t.mask_eq).congr ?_
    intro j hj
    have hbyte : (8 * 2 + j) / 8 < 2 + t.typeSize := by omega
    rw [bit_congr ((hblock _ (by omega)).trans (encode_meta _ _ _ _ _ hbyte)), bit_copyTo,
      if_neg (by omega)]
    rfl
  case baseHolds => exact hvalues _ hbase
  case values =>
    intro v hv
    exact ⟨hvalues v hv, (hencloses.cell v hv).1⟩
  case plain => exact hfits.plain
  case extend_le => exact hle
  case extend =>
    intro hneed row datum hrow
    refine (hfits.field_extend hneed hrow rest).congr ?_
    intro j hj
    have hneed' : desc.needExtendValueBitStore = true := hneed
    have hend := hrowEnd row datum extendValueBit hrow
    simp only [dataOffset, hneed', if_true] at hbits
    change j < extendValueBit at hj
    exact hdata _ (by omega)
  case packed =>
    intro hpacking row v hrow
    have hpacked : 0 < desc.bitPackingLength := by simpa [encode] using hpacking
    have hend := hrowEnd row _ desc.bitPackingLength hrow
    rw [EncoderDesc.width, if_pos hpacked, ← hdeltas row v hrow]
    refine (hfits.field_packed hpacked hrow rest).congr ?_
    intro j hj
    exact hdata _ (by omega)
  case fixed =>
    intro hpacking row v hrow
    have hpacked : ¬ 0 < desc.bitPackingLength := by simpa [encode] using hpacking
    have hend := hrowEnd row _ desc.fixDataLength hrow
    have hstart : (desc.calcFixDataSize extendValueBit datums.length).1 =
        (dataOffset desc.needExtendValueBitStore extendValueBit datums.length + 7) / 8 := by
      simp [EncoderDesc.calcFixDataSize, dataOffset, Nat.eq_zero_of_not_pos hpacked]
    rw [EncoderDesc.width, if_neg hpacked, ← hdeltas row v hrow]
    refine (hfits.field_fixed (Nat.eq_zero_of_not_pos hpacked) hrow rest).congr ?_
    intro j hj
    exact hdata _ (by omega)

end

end SeekDB.IntegerBaseDiff
