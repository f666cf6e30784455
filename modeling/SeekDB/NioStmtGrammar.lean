/-
The grammar of COM_STMT_EXECUTE parameters, and that the parser accepts exactly
its sentences.

A value of the protocol is an abstract number, time, date or byte string; the
grammar says which bytes encode it, which types have such values and what its
descriptor carries.
-/
import SeekDB.NioStmtExecute

namespace SeekDB.Nio

open List Nat ByteCodec ByteSlice

variable {encoding : List UInt8} {width mysqlType : Nat}

/-- The encodings of a length-encoded integer; shorter is not required. -/
inductive LenencInt : Nat → List UInt8 → Prop
  | one {n : Nat} (hn : n < 251) : LenencInt n [UInt8.ofNat n]
  | two {n : Nat} (hn : n < 256 ^ 2) : LenencInt n (252 :: leBytes 2 n)
  | three {n : Nat} (hn : n < 256 ^ 3) : LenencInt n (253 :: leBytes 3 n)
  | eight {n : Nat} (hn : n < 256 ^ 8) : LenencInt n (254 :: leBytes 8 n)

structure ClockTime where
  hour : UInt8
  minute : UInt8
  second : UInt8
  deriving Repr, DecidableEq

/-- A time that is not empty; any sign but zero is negative. -/
structure TimeValue where
  sign : UInt8
  days : BitVec 32
  clock : ClockTime
  microseconds : Option (BitVec 32)
  deriving Repr, DecidableEq

/-- A date that is not empty. -/
structure DateValue where
  year : BitVec 16
  month : UInt8
  day : UInt8
  clock : Option (ClockTime × Option (BitVec 32))
  deriving Repr, DecidableEq

inductive BinaryValue
  | integer (width : Nat) (raw : BitVec (8 * width))
  | float (bits : BitVec 32)
  | double (bits : BitVec 64)
  | year (year : BitVec 16)
  | time (value : Option TimeValue)
  | date (value : Option DateValue)
  | bytes (data : List UInt8)

def ClockTime.bytes (clock : ClockTime) : List UInt8 :=
  [clock.hour, clock.minute, clock.second]

def microBytes : Option (BitVec 32) → List UInt8
  | none => []
  | some micros => leBytes 4 micros.toNat

def TimeValue.bytes (time : TimeValue) : List UInt8 :=
  time.sign :: leBytes 4 time.days.toNat ++ time.clock.bytes ++ microBytes time.microseconds

def DateValue.clockBytes (date : DateValue) : List UInt8 :=
  match date.clock with
  | none => []
  | some (clock, micros) => clock.bytes ++ microBytes micros

def DateValue.bytes (date : DateValue) : List UInt8 :=
  leBytes 2 date.year.toNat ++ [date.month, date.day] ++ date.clockBytes

/-- A length byte and that many bytes. -/
def sized (bytes : List UInt8) : List UInt8 := UInt8.ofNat bytes.length :: bytes

/-- The integers of a type. -/
def integerWidth (mysqlType : Nat) : Option Nat :=
  match mysqlType with
  | 1 => some 1
  | 2 => some 2
  | 3 | 9 => some 4
  | 8 => some 8
  | _ => none

namespace BinaryValue

/-- The binary encodings of a value. -/
inductive Encodes : BinaryValue → List UInt8 → Prop
  | integer (width : Nat) (raw : BitVec (8 * width)) :
      Encodes (.integer width raw) (leBytes width raw.toNat)
  | float (bits : BitVec 32) : Encodes (.float bits) (leBytes 4 bits.toNat)
  | double (bits : BitVec 64) : Encodes (.double bits) (leBytes 8 bits.toNat)
  | year (year : BitVec 16) : Encodes (.year year) (leBytes 2 year.toNat)
  | noTime : Encodes (.time none) (sized [])
  | time (time : TimeValue) : Encodes (.time (some time)) (sized time.bytes)
  | noDate : Encodes (.date none) (sized [])
  | date (date : DateValue) : Encodes (.date (some date)) (sized date.bytes)
  | bytes (data : List UInt8) {len : List UInt8} (hlen : LenencInt data.length len) :
      Encodes (.bytes data) (len ++ data)

/-- The types that have such values. -/
def OfType (mysqlType : Nat) : BinaryValue → Prop
  | .integer width _ => integerWidth mysqlType = some width
  | .float _ => mysqlType = 4
  | .double _ => mysqlType = 5
  | .year _ => mysqlType = 13
  | .time _ => mysqlType = mysqlTypeTime
  | .date _ => mysqlType = mysqlTypeDate ∨ mysqlType = mysqlTypeDatetime ∨
      mysqlType = mysqlTypeTimestamp
  | .bytes _ => wireClass mysqlType = some .lenenc

/-- Offset and length of byte values fit into the descriptor. -/
def Fits (pos : Nat) (encoding : List UInt8) : BinaryValue → Prop
  | .bytes data => pos + (encoding.length - data.length) < 2 ^ 31 ∧ data.length < 2 ^ 31
  | _ => True

/-- Integers are extended to 64 bits, by zeros if the type is unsigned. -/
def isUnsigned (info : ExecuteParamMeta) : Prop := info.typeFlags &&& unsignedTypeFlag ≠ 0

instance (info : ExecuteParamMeta) : Decidable (isUnsigned info) :=
  inferInstanceAs (Decidable (_ ≠ _))

def describeClock (param : ExecuteParam) (clock : ClockTime) (micros : Option (BitVec 32)) :
    ExecuteParam :=
  { param with
    hour := clock.hour
    minute := clock.minute
    second := clock.second
    microseconds := (micros.getD 0).toNat }

/-- What the descriptor of a value carries, when its encoding stands at `pos`. -/
def describe (info : ExecuteParamMeta) (pos : Nat) (encoding : List UInt8) :
    BinaryValue → ExecuteParam
  | .integer _ raw =>
    { descriptor info with
      kind := if isUnsigned info then .u64 else .i64
      value := if isUnsigned info then raw.zeroExtend 64 else raw.signExtend 64 }
  | .float bits => { descriptor info with kind := .f32Bits, value := bits.zeroExtend 64 }
  | .double bits => { descriptor info with kind := .f64Bits, value := bits }
  | .year value => { descriptor info with kind := .year, value := value.zeroExtend 64 }
  | .time none => { descriptor info with kind := .time }
  | .time (some value) =>
    describeClock
      { descriptor info with
        kind := .time
        valueLen := value.bytes.length
        flags := if value.sign ≠ 0 then (descriptor info).flags ||| paramNegative
          else (descriptor info).flags
        days := value.days.toNat } value.clock value.microseconds
  | .date none => { descriptor info with kind := dateKind info.mysqlType }
  | .date (some value) =>
    let dated :=
      { descriptor info with
        kind := dateKind info.mysqlType
        valueLen := value.bytes.length
        year := value.year.toNat
        month := value.month
        day := value.day }
    match value.clock with
    | none => dated
    | some (clock, micros) => describeClock dated clock micros
  | .bytes data =>
    { descriptor info with
      kind := .bytes
      valueOff := pos + (encoding.length - data.length)
      valueLen := data.length }

end BinaryValue

/-- The bytes of one parameter and its descriptor.  Long data has been sent
before, whether or not the parameter is marked as null. -/
inductive EncodedParam (info : ExecuteParamMeta) (pos : Nat) :
    Bool → Bool → List UInt8 → ExecuteParam → Prop
  | longData (isNull : Bool) (htype : supportsLongData info.mysqlType = true) :
      EncodedParam info pos isNull true [] { descriptor info with kind := .longData }
  | null : EncodedParam info pos true false [] { descriptor info with kind := .null }
  | value {value : BinaryValue} {encoding : List UInt8}
      (htype : value.OfType info.mysqlType) (hencodes : value.Encodes encoding)
      (hfits : value.Fits pos encoding) :
      EncodedParam info pos false false encoding (value.describe info pos encoding)

/-- The bytes of the parameters from the parameter `index` on. -/
inductive EncodedParams (bitmap longData : List UInt8) :
    Nat → Nat → List ExecuteParamMeta → List UInt8 → List ExecuteParam → Prop
  | nil (index pos : Nat) : EncodedParams bitmap longData index pos [] [] []
  | cons {index pos : Nat} {info : ExecuteParamMeta} {rest : List ExecuteParamMeta}
      {encoding body : List UInt8} {param : ExecuteParam} {params : List ExecuteParam}
      (hreserved : info.reserved = 0)
      (hparam : EncodedParam info pos (isNullParam bitmap index)
        (hasLongDataParam longData index) encoding param)
      (hrest : EncodedParams bitmap longData (index + 1) (pos + encoding.length) rest body params) :
      EncodedParams bitmap longData index pos (info :: rest) (encoding ++ body)
        (param :: params)

/-- The tail of a request with at least one parameter: null bitmap, new-params
flag, type table if the flag is one, and the values. -/
structure EncodedTail (tail : List UInt8) (paramCount : Nat)
    (cached : List ExecuteParamMeta) (longData : List UInt8) (params : List ExecuteParam)
    (newFlag : UInt8) (bitmap table body : List UInt8) (metas : List ExecuteParamMeta) :
    Prop where
  tail_eq : tail = bitmap ++ newFlag :: table ++ body
  bitmap_length : bitmap.length = (paramCount + 7) / 8
  types : (newFlag = 1 ∧ table.length = paramCount * 2 ∧ metas = tableMetas table) ∨
    (newFlag ≠ 1 ∧ table = [] ∧ metas = cached ∧ cached.length = paramCount)
  supported : ∀ info ∈ metas, isObExtension info.mysqlType = false
  long_data : longData = [] ∨
    longData.length = paramCount ∧ ∀ value ∈ longData, value = 0 ∨ value = 1
  values : EncodedParams bitmap longData 0 (bitmap.length + 1 + table.length) metas body params

/-- The requests that the grammar allows, with their descriptors. -/
def EncodedRequest (tail : List UInt8) (paramCount : Nat) (cached : List ExecuteParamMeta)
    (longData : List UInt8) (params : List ExecuteParam) (newFlag : UInt8) : Prop :=
  if paramCount = 0 then
    tail = [] ∧ cached = [] ∧ longData = [] ∧ params = [] ∧ newFlag = 0
  else
    ∃ bitmap table body metas,
      EncodedTail tail paramCount cached longData params newFlag bitmap table body metas

/-! Reading. -/

section

variable {tail bytes : List UInt8} {pos next len : Nat} {out param : ExecuteParam}

theorem readFixed_eq_ok : readFixed len tail pos = .ok (bytes, next) ↔
      Slice tail pos bytes ∧ bytes.length = len ∧ next = pos + len := by
  unfold readFixed
  split
  · constructor
    · simp
    · rintro ⟨hslice, rfl, -⟩
      have hle := hslice.length_le
      omega
  rw [Except.ok.injEq, Prod.mk.injEq]
  constructor
  · rintro ⟨rfl, rfl⟩
    exact ⟨slice_take (by omega), by simp; omega, rfl⟩
  · rintro ⟨hslice, rfl, rfl⟩
    exact ⟨hslice.eq_take.symm, rfl⟩

theorem readFixed_slice (hslice : Slice tail pos bytes) (hlen : bytes.length = len) :
    readFixed len tail pos = .ok (bytes, pos + len) :=
  readFixed_eq_ok.mpr ⟨hslice, hlen, rfl⟩

theorem exists_bits (hlen : bytes.length = width) :
    ∃ raw : BitVec (8 * width), bytes = leBytes width raw.toNat := by
  subst hlen
  have hlt := leNat_lt bytes
  refine ⟨BitVec.ofNat _ (leNat bytes), ?_⟩
  rw [BitVec.toNat_ofNat, mod_eq_of_lt (by rwa [Nat.pow_mul]), leBytes_leNat]

theorem leNat_leBytes_toNat (raw : BitVec (8 * width)) :
    leNat (leBytes width raw.toNat) = raw.toNat := by
  apply leNat_leBytes
  have hlt := raw.isLt
  rwa [Nat.pow_mul] at hlt

theorem toI32_eq_ok {value result : Nat} :
    toI32 value = .ok result ↔ value < 2 ^ 31 ∧ result = value := by
  unfold toI32
  split
  · rename_i hlt
    rw [Except.ok.injEq]
    exact ⟨fun h => ⟨hlt, h.symm⟩, fun h => h.2.symm⟩
  rename_i hge
  constructor
  · simp
  · exact fun h => absurd h.1 hge

theorem slice_of_drop {marker : UInt8} {rest : List UInt8} (len : Nat)
    (hdrop : tail.drop pos = marker :: rest) :
    Slice tail pos (marker :: rest.take len) := by
  have hlen := congrArg List.length hdrop
  rw [length_drop, length_cons] at hlen
  refine ⟨by omega, ⟨rest.drop len, ?_⟩⟩
  rw [hdrop, cons_append, take_append_drop]

theorem readLenenc_sound {n k : Nat} (h : readLenenc tail pos = some (n, k)) :
    ∃ enc, LenencInt n enc ∧ enc.length = k ∧ Slice tail pos enc := by
  unfold readLenenc at h
  split at h
  · simp at h
  rename_i marker rest hdrop
  -- the three longer forms differ in the marker and the width only
  have hlong : ∀ width, width ≤ rest.length → leNat (rest.take width) < 256 ^ width ∧
        leBytes width (leNat (rest.take width)) = rest.take width := by
    intro width hwidth
    have htake : (rest.take width).length = width := by simp [hwidth]
    have hlt := leNat_lt (rest.take width)
    have hback := leBytes_leNat (rest.take width)
    rw [htake] at hlt hback
    exact ⟨hlt, hback⟩
  have hslice := fun len => slice_of_drop len hdrop
  split at h
  · rename_i hsmall
    cases h
    refine ⟨[marker], ?_, rfl, hslice 0⟩
    have hone := LenencInt.one (UInt8.lt_iff_toNat_lt.mp hsmall)
    rwa [UInt8.ofNat_toNat] at hone
  split at h
  · rename_i hmarker
    subst hmarker
    split at h
    · rename_i hwidth
      cases h
      obtain ⟨hlt, hback⟩ := hlong 2 hwidth
      exact ⟨_, .two hlt, by simp, by rw [hback]; exact hslice 2⟩
    · simp at h
  split at h
  · rename_i hmarker
    subst hmarker
    split at h
    · rename_i hwidth
      cases h
      obtain ⟨hlt, hback⟩ := hlong 3 hwidth
      exact ⟨_, .three hlt, by simp, by rw [hback]; exact hslice 3⟩
    · simp at h
  split at h
  · rename_i hmarker
    subst hmarker
    split at h
    · rename_i hwidth
      cases h
      obtain ⟨hlt, hback⟩ := hlong 8 hwidth
      exact ⟨_, .eight hlt, by simp, by rw [hback]; exact hslice 8⟩
    · simp at h
  · simp at h

theorem readLenenc_complete {n : Nat} {enc : List UInt8} (hint : LenencInt n enc)
    (hslice : Slice tail pos enc) : readLenenc tail pos = some (n, enc.length) := by
  obtain ⟨-, rest, hrest⟩ := hslice
  unfold readLenenc
  cases hint with
  | one hn =>
    have hsmall : UInt8.ofNat n < 251 := by
      rw [UInt8.lt_iff_toNat_lt, UInt8.toNat_ofNat', mod_eq_of_lt (by omega)]
      exact hn
    have hback : (UInt8.ofNat n).toNat = n := by
      rw [UInt8.toNat_ofNat', mod_eq_of_lt (by omega)]
    rw [← hrest]
    simp [hsmall, hback]
  | two hn | three hn | eight hn =>
    rw [← hrest]
    simp [take_left', leNat_leBytes hn]

theorem readLenenc_eq_some {n k : Nat} : readLenenc tail pos = some (n, k) ↔
      ∃ enc, LenencInt n enc ∧ enc.length = k ∧ Slice tail pos enc := by
  constructor
  · exact readLenenc_sound
  · rintro ⟨enc, hint, rfl, hslice⟩
    exact readLenenc_complete hint hslice

/-! Integers, floating point numbers and years. -/

theorem flags_unsigned (info : ExecuteParamMeta) :
    (descriptor info).flags &&& paramUnsigned ≠ 0 ↔ BinaryValue.isUnsigned info := by
  unfold descriptor BinaryValue.isUnsigned
  dsimp only
  split
  · rename_i h
    exact ⟨fun _ => h, fun _ => by decide⟩
  · rename_i h
    exact ⟨fun hne => absurd hne (by decide), fun hu => absurd hu h⟩

variable {info : ExecuteParamMeta}

theorem parseInteger_sound (h : parseInteger width tail pos (descriptor info) = .ok (param, next)) :
    ∃ raw : BitVec (8 * width), Slice tail pos (leBytes width raw.toNat) ∧ next = pos + width ∧
      param = (BinaryValue.integer width raw).describe info pos (leBytes width raw.toNat) := by
  obtain ⟨⟨bytes, behind⟩, hread, hrest⟩ := bind_eq_ok.mp h
  obtain ⟨hslice, hlen, rfl⟩ := readFixed_eq_ok.mp hread
  obtain ⟨raw, rfl⟩ := exists_bits hlen
  refine ⟨raw, hslice, ?_⟩
  dsimp only at hrest
  rw [leNat_leBytes_toNat, BitVec.ofNat_toNat, BitVec.setWidth_eq] at hrest
  by_cases hunsigned : BinaryValue.isUnsigned info
  · rw [if_pos ((flags_unsigned info).mpr hunsigned)] at hrest
    cases hrest
    exact ⟨rfl, by simp only [BinaryValue.describe, if_pos hunsigned]⟩
  · rw [if_neg (mt (flags_unsigned info).mp hunsigned)] at hrest
    cases hrest
    exact ⟨rfl, by simp only [BinaryValue.describe, if_neg hunsigned]⟩

theorem parseInteger_complete (raw : BitVec (8 * width))
    (hslice : Slice tail pos (leBytes width raw.toNat)) :
    parseInteger width tail pos (descriptor info) =
      .ok ((BinaryValue.integer width raw).describe info pos (leBytes width raw.toNat),
        pos + width) := by
  unfold parseInteger
  rw [readFixed_slice hslice (length_leBytes _ _)]
  simp only [bind, Except.bind, leNat_leBytes_toNat, BitVec.ofNat_toNat, BitVec.setWidth_eq,
    BinaryValue.describe, pure, Except.pure]
  by_cases hunsigned : BinaryValue.isUnsigned info
  · rw [if_pos ((flags_unsigned info).mpr hunsigned), if_pos hunsigned, if_pos hunsigned]
  · rw [if_neg (mt (flags_unsigned info).mp hunsigned), if_neg hunsigned, if_neg hunsigned]

theorem parseLonglong_eq (tail : List UInt8) (pos : Nat) (out : ExecuteParam) :
    parseLonglong tail pos out = parseInteger 8 tail pos out := by
  unfold parseLonglong parseInteger
  congr 1
  funext read
  split_ifs with hunsigned
  · rfl
  · simp only [BitVec.signExtend_eq]

theorem parseBits_sound {kind : ValueKind}
    (h : parseBits width kind tail pos out = .ok (param, next)) :
    ∃ raw : BitVec (8 * width), Slice tail pos (leBytes width raw.toNat) ∧ next = pos + width ∧
      param = { out with kind := kind, value := raw.zeroExtend 64 } := by
  obtain ⟨⟨bytes, behind⟩, hread, hrest⟩ := bind_eq_ok.mp h
  obtain ⟨hslice, hlen, rfl⟩ := readFixed_eq_ok.mp hread
  obtain ⟨raw, rfl⟩ := exists_bits hlen
  cases hrest
  refine ⟨raw, hslice, rfl, ?_⟩
  rw [leNat_leBytes_toNat, BitVec.ofNat_toNat]

theorem parseBits_complete (kind : ValueKind) (out : ExecuteParam)
    (raw : BitVec (8 * width)) (hslice : Slice tail pos (leBytes width raw.toNat)) :
    parseBits width kind tail pos out =
      .ok ({ out with kind := kind, value := raw.zeroExtend 64 }, pos + width) := by
  unfold parseBits
  rw [readFixed_slice hslice (length_leBytes _ _)]
  simp only [bind, Except.bind, leNat_leBytes_toNat, BitVec.ofNat_toNat, pure, Except.pure]

/-! Byte strings. -/

theorem parseLenencBytes_sound
    (h : parseLenencBytes tail pos (descriptor info) = .ok (param, next)) :
    ∃ data encoding, BinaryValue.Encodes (.bytes data) encoding ∧
      BinaryValue.Fits pos encoding (.bytes data) ∧ Slice tail pos encoding ∧
      next = pos + encoding.length ∧
      param = (BinaryValue.bytes data).describe info pos encoding := by
  unfold parseLenencBytes at h
  split at h
  · simp at h
  rename_i len prefixLen hread
  obtain ⟨enc, hint, rfl, hslice⟩ := readLenenc_eq_some.mp hread
  dsimp only at h
  split at h
  · simp at h
  obtain ⟨valueOff, hoff, h⟩ := bind_eq_ok.mp h
  obtain ⟨valueLen, hlen, h⟩ := bind_eq_ok.mp h
  obtain ⟨hoffLt, rfl⟩ := toI32_eq_ok.mp hoff
  obtain ⟨hlenLt, rfl⟩ := toI32_eq_ok.mp hlen
  cases h
  have hdata : Slice tail (pos + enc.length)
      ((tail.drop (pos + enc.length)).take valueLen) := slice_take (by omega)
  have hdataLen : ((tail.drop (pos + enc.length)).take valueLen).length = valueLen := by
    simp
    omega
  refine ⟨_, enc ++ (tail.drop (pos + enc.length)).take valueLen,
    .bytes _ (by rw [hdataLen]; exact hint), ?_, slice_append.mpr ⟨hslice, hdata⟩, ?_, ?_⟩
  · simp only [BinaryValue.Fits, length_append, hdataLen, Nat.add_sub_cancel]
    exact ⟨hoffLt, hlenLt⟩
  · rw [length_append, hdataLen, Nat.add_assoc]
  · simp only [BinaryValue.describe, length_append, hdataLen, Nat.add_sub_cancel]

theorem parseLenencBytes_complete {data : List UInt8}
    (hencodes : BinaryValue.Encodes (.bytes data) encoding)
    (hfits : BinaryValue.Fits pos encoding (.bytes data)) (hslice : Slice tail pos encoding) :
    parseLenencBytes tail pos (descriptor info) =
      .ok ((BinaryValue.bytes data).describe info pos encoding, pos + encoding.length) := by
  cases hencodes with
  | @bytes _ enc hint =>
    have hle := hslice.length_le
    have hread := readLenenc_complete hint (slice_append.mp hslice).1
    simp only [BinaryValue.Fits, length_append, Nat.add_sub_cancel] at hfits
    rw [length_append] at hle
    unfold parseLenencBytes
    rw [hread]
    dsimp only
    rw [if_neg (by omega), toI32_eq_ok.mpr ⟨hfits.1, rfl⟩, toI32_eq_ok.mpr ⟨hfits.2, rfl⟩]
    simp only [bind, Except.bind, pure, Except.pure, BinaryValue.describe,
      length_append, Nat.add_sub_cancel, Nat.add_assoc]

/-! Times and dates. -/

theorem leNat_bits32 (raw : BitVec 32) : leNat (leBytes 4 raw.toNat) = raw.toNat :=
  leNat_leBytes raw.isLt

theorem exists_time (hlen : bytes.length = 8) :
    ∃ sign days clock, bytes = sign :: leBytes 4 (BitVec.toNat (w := 32) days) ++
      ClockTime.bytes clock := by
  match bytes, hlen with
  | [sign, d0, d1, d2, d3, hour, minute, second], _ =>
    obtain ⟨days, hdays⟩ := exists_bits (show [d0, d1, d2, d3].length = 4 from rfl)
    refine ⟨sign, days, ⟨hour, minute, second⟩, ?_⟩
    rw [← hdays]
    rfl

theorem time_fields (sign : UInt8) (days : BitVec 32) (clock : ClockTime) :
    let bytes := sign :: leBytes 4 days.toNat ++ clock.bytes
    bytes.getD 0 0 = sign ∧ leNat ((bytes.drop 1).take 4) = days.toNat ∧
      bytes.getD 5 0 = clock.hour ∧ bytes.getD 6 0 = clock.minute ∧
      bytes.getD 7 0 = clock.second := by
  have hdays := leNat_bits32 days
  have hlen := length_leBytes 4 days.toNat
  generalize leBytes 4 days.toNat = encoded at hdays hlen ⊢
  match encoded, hlen with
  | [d0, d1, d2, d3], _ => exact ⟨rfl, hdays, rfl, rfl, rfl⟩

/-- The descriptor of a time that is not empty, from the one without it. -/
def describeTime (out : ExecuteParam) (time : TimeValue) : ExecuteParam :=
  BinaryValue.describeClock
    { out with
      kind := .time
      flags := if time.sign ≠ 0 then out.flags ||| paramNegative else out.flags
      days := time.days.toNat } time.clock time.microseconds

theorem parseTime_sound (hlen : len = 8 ∨ len = 12) (hmicros : out.microseconds = 0)
    (h : parseTime tail pos len out = .ok (param, next)) :
    ∃ time : TimeValue, Slice tail pos time.bytes ∧ time.bytes.length = len ∧
      next = pos + len ∧ param = describeTime out time := by
  obtain ⟨⟨bytes, behind⟩, hread, h⟩ := bind_eq_ok.mp h
  obtain ⟨hslice, hbytes, rfl⟩ := readFixed_eq_ok.mp hread
  obtain ⟨sign, days, clock, rfl⟩ := exists_time hbytes
  obtain ⟨hsign, hdays, hhour, hminute, hsecond⟩ := time_fields sign days clock
  dsimp only at h
  rw [hsign, hdays, hhour, hminute, hsecond] at h
  rcases hlen with rfl | rfl
  · cases h
    refine ⟨⟨sign, days, clock, none⟩, ?_, ?_, rfl, ?_⟩
    · simpa [TimeValue.bytes, microBytes] using hslice
    · simp [TimeValue.bytes, microBytes, ClockTime.bytes]
    · simp [describeTime, BinaryValue.describeClock, hmicros]
  obtain ⟨⟨micros, behind'⟩, hread', h⟩ := bind_eq_ok.mp h
  obtain ⟨hslice', hlen', rfl⟩ := readFixed_eq_ok.mp hread'
  obtain ⟨raw, rfl⟩ := exists_bits hlen'
  cases h
  refine ⟨⟨sign, days, clock, some raw⟩, ?_, ?_, by omega, ?_⟩
  · exact slice_append.mpr ⟨hslice, by rw [hbytes]; exact hslice'⟩
  · simp [TimeValue.bytes, microBytes, ClockTime.bytes]
  · simp [describeTime, BinaryValue.describeClock, leNat_bits32]

theorem parseTime_complete (time : TimeValue) (hmicros : out.microseconds = 0)
    (hslice : Slice tail pos time.bytes) :
    parseTime tail pos time.bytes.length out =
      .ok (describeTime out time, pos + time.bytes.length) := by
  obtain ⟨sign, days, clock, micros⟩ := time
  obtain ⟨hsign, hdays, hhour, hminute, hsecond⟩ := time_fields sign days clock
  obtain ⟨hfirst, hsecond'⟩ := slice_append.mp hslice
  have hlen : (sign :: leBytes 4 days.toNat ++ clock.bytes).length = 8 := by
    simp [ClockTime.bytes]
  rw [hlen] at hsecond'
  unfold parseTime
  rw [readFixed_slice hfirst hlen]
  simp only [bind, Except.bind, hsign, hdays, hhour, hminute, hsecond]
  cases micros with
  | none =>
    have htotal : (TimeValue.bytes ⟨sign, days, clock, none⟩).length = 8 := by
      simp [TimeValue.bytes, microBytes, ClockTime.bytes]
    rw [htotal, if_neg (by decide)]
    simp [describeTime, BinaryValue.describeClock, hmicros, pure, Except.pure]
  | some raw =>
    have htotal : (TimeValue.bytes ⟨sign, days, clock, some raw⟩).length = 12 := by
      simp [TimeValue.bytes, microBytes, ClockTime.bytes]
    rw [htotal, if_pos rfl, readFixed_slice hsecond' (by simp [microBytes])]
    simp [describeTime, BinaryValue.describeClock, microBytes, leNat_bits32, pure, Except.pure]

theorem exists_date (hlen : bytes.length = 4) :
    ∃ year month day, bytes = leBytes 2 (BitVec.toNat (w := 16) year) ++ [month, day] := by
  match bytes, hlen with
  | [y0, y1, month, day], _ =>
    obtain ⟨year, hyear⟩ := exists_bits (show [y0, y1].length = 2 from rfl)
    refine ⟨year, month, day, ?_⟩
    rw [← hyear]
    rfl

theorem date_fields (year : BitVec 16) (month day : UInt8) :
    let bytes := leBytes 2 year.toNat ++ [month, day]
    leNat (bytes.take 2) = year.toNat ∧ bytes.getD 2 0 = month ∧ bytes.getD 3 0 = day := by
  have hyear : leNat (leBytes 2 year.toNat) = year.toNat := leNat_leBytes year.isLt
  have hlen := length_leBytes 2 year.toNat
  generalize leBytes 2 year.toNat = encoded at hyear hlen ⊢
  match encoded, hlen with
  | [y0, y1], _ => exact ⟨hyear, rfl, rfl⟩

theorem exists_clock (hlen : bytes.length = 3) : ∃ clock, bytes = ClockTime.bytes clock := by
  match bytes, hlen with
  | [hour, minute, second], _ => exact ⟨⟨hour, minute, second⟩, rfl⟩

/-- The descriptor of a date that is not empty, from the one without it. -/
def describeDate (out : ExecuteParam) (date : DateValue) : ExecuteParam :=
  let dated :=
    { out with
      kind := dateKind out.mysqlType
      year := date.year.toNat
      month := date.month
      day := date.day }
  match date.clock with
  | none => dated
  | some (clock, micros) => BinaryValue.describeClock dated clock micros

theorem parseDate_sound (hlen : len = 4 ∨ len = 7 ∨ len = 11) (hmicros : out.microseconds = 0)
    (h : parseDate tail pos len out = .ok (param, next)) :
    ∃ date : DateValue, Slice tail pos date.bytes ∧ date.bytes.length = len ∧
      next = pos + len ∧ param = describeDate out date := by
  obtain ⟨⟨bytes, behind⟩, hread, h⟩ := bind_eq_ok.mp h
  obtain ⟨hslice, hbytes, rfl⟩ := readFixed_eq_ok.mp hread
  obtain ⟨year, month, day, rfl⟩ := exists_date hbytes
  obtain ⟨hyear, hmonth, hday⟩ := date_fields year month day
  dsimp only at h
  rw [hyear, hmonth, hday] at h
  rcases hlen with rfl | hlong
  · rw [if_neg (by decide)] at h
    obtain ⟨⟨timed, behind⟩, htimed, h⟩ := bind_eq_ok.mp h
    cases htimed
    cases h
    refine ⟨⟨year, month, day, none⟩, ?_, ?_, rfl, rfl⟩
    · simpa [DateValue.bytes, DateValue.clockBytes] using hslice
    · simp [DateValue.bytes, DateValue.clockBytes]
  rw [if_pos (by omega)] at h
  obtain ⟨⟨time, behind'⟩, hread', h⟩ := bind_eq_ok.mp h
  obtain ⟨hslice', hlen', rfl⟩ := readFixed_eq_ok.mp hread'
  obtain ⟨clock, rfl⟩ := exists_clock hlen'
  obtain ⟨⟨timed, behind⟩, htimed, h⟩ := bind_eq_ok.mp h
  cases htimed
  have hclock : Slice tail pos (leBytes 2 year.toNat ++ [month, day] ++ clock.bytes) :=
    slice_append.mpr ⟨hslice, by rw [hbytes]; exact hslice'⟩
  dsimp only at h
  rcases hlong with rfl | rfl
  · rw [if_neg (by decide)] at h
    cases h
    refine ⟨⟨year, month, day, some (clock, none)⟩, ?_, ?_, by omega, ?_⟩
    · simpa [DateValue.bytes, DateValue.clockBytes, microBytes] using hclock
    · simp [DateValue.bytes, DateValue.clockBytes, microBytes, ClockTime.bytes]
    · simp [describeDate, BinaryValue.describeClock, hmicros, ClockTime.bytes]
  obtain ⟨⟨micros, behind''⟩, hread'', h⟩ := bind_eq_ok.mp h
  obtain ⟨hslice'', hlen'', rfl⟩ := readFixed_eq_ok.mp hread''
  obtain ⟨raw, rfl⟩ := exists_bits hlen''
  cases h
  refine ⟨⟨year, month, day, some (clock, some raw)⟩, ?_, ?_, by omega, ?_⟩
  · rw [DateValue.bytes, DateValue.clockBytes, ← append_assoc]
    refine slice_append.mpr ⟨hclock, ?_⟩
    exact hslice''
  · simp [DateValue.bytes, DateValue.clockBytes, microBytes, ClockTime.bytes]
  · simp [describeDate, BinaryValue.describeClock, leNat_bits32, ClockTime.bytes]

theorem parseDate_complete (date : DateValue) (hmicros : out.microseconds = 0)
    (hslice : Slice tail pos date.bytes) :
    parseDate tail pos date.bytes.length out =
      .ok (describeDate out date, pos + date.bytes.length) := by
  obtain ⟨year, month, day, clock⟩ := date
  obtain ⟨hyear, hmonth, hday⟩ := date_fields year month day
  obtain ⟨hfirst, hlater⟩ := slice_append.mp hslice
  have hlen : (leBytes 2 year.toNat ++ [month, day]).length = 4 := by simp
  rw [hlen] at hlater
  unfold parseDate
  rw [readFixed_slice hfirst hlen]
  simp only [bind, Except.bind, hyear, hmonth, hday]
  match clock with
  | none =>
    have htotal : (DateValue.bytes ⟨year, month, day, none⟩).length = 4 := by
      simp [DateValue.bytes, DateValue.clockBytes]
    rw [htotal]
    simp [describeDate, pure, Except.pure]
  | some (clock, micros) =>
    obtain ⟨hclock, hmicro⟩ := slice_append.mp hlater
    have hclockLen : clock.bytes.length = 3 := rfl
    rw [hclockLen] at hmicro
    have hseven : 7 ≤ (DateValue.bytes ⟨year, month, day, some (clock, micros)⟩).length := by
      simp [DateValue.bytes, DateValue.clockBytes, ClockTime.bytes]
      omega
    rw [if_pos hseven, readFixed_slice hclock hclockLen]
    simp only [pure, Except.pure]
    cases micros with
    | none =>
      have htotal : (DateValue.bytes ⟨year, month, day, some (clock, none)⟩).length = 7 := by
        simp [DateValue.bytes, DateValue.clockBytes, microBytes, ClockTime.bytes]
      rw [htotal, if_neg (by decide)]
      simp [describeDate, BinaryValue.describeClock, hmicros, ClockTime.bytes]
    | some raw =>
      have htotal : (DateValue.bytes ⟨year, month, day, some (clock, some raw)⟩).length = 11 := by
        simp [DateValue.bytes, DateValue.clockBytes, microBytes, ClockTime.bytes]
      rw [htotal, if_pos rfl, readFixed_slice hmicro (by simp [microBytes])]
      simp [describeDate, BinaryValue.describeClock, microBytes, leNat_bits32, ClockTime.bytes]

theorem temporal_types :
    wireClass mysqlType = some .temporal ↔ mysqlType = mysqlTypeTime ∨
      mysqlType = mysqlTypeDate ∨ mysqlType = mysqlTypeDatetime ∨
      mysqlType = mysqlTypeTimestamp := by
  unfold wireClass mysqlTypeTime mysqlTypeDate mysqlTypeDatetime mysqlTypeTimestamp
  split <;> simp_all

theorem temporalLenExpected_time :
    temporalLenExpected mysqlTypeTime len = true ↔ len = 0 ∨ len = 8 ∨ len = 12 := by
  simp [temporalLenExpected]

theorem temporalLenExpected_date (htype : mysqlType = mysqlTypeDate ∨
      mysqlType = mysqlTypeDatetime ∨ mysqlType = mysqlTypeTimestamp) :
    temporalLenExpected mysqlType len = true ↔ len = 0 ∨ len = 4 ∨ len = 7 ∨ len = 11 := by
  rcases htype with rfl | rfl | rfl <;>
    simp [temporalLenExpected, mysqlTypeDate, mysqlTypeTime, mysqlTypeDatetime,
      mysqlTypeNewdate, mysqlTypeTimestamp]

theorem date_ne_time (htype : mysqlType = mysqlTypeDate ∨
      mysqlType = mysqlTypeDatetime ∨ mysqlType = mysqlTypeTimestamp) :
    mysqlType ≠ mysqlTypeTime := by
  rcases htype with rfl | rfl | rfl <;> decide

theorem length_timeBytes (time : TimeValue) : time.bytes.length = 8 ∨ time.bytes.length = 12 := by
  obtain ⟨sign, days, clock, _ | micros⟩ := time <;>
    simp [TimeValue.bytes, microBytes, ClockTime.bytes]

theorem length_dateBytes (date : DateValue) :
    date.bytes.length = 4 ∨ date.bytes.length = 7 ∨ date.bytes.length = 11 := by
  obtain ⟨year, month, day, _ | ⟨clock, _ | micros⟩⟩ := date <;>
    simp [DateValue.bytes, DateValue.clockBytes, microBytes, ClockTime.bytes]

/-- A value of the type of the parameter stands at the position. -/
structure ValueAt (tail : List UInt8) (pos : Nat) (info : ExecuteParamMeta)
    (param : ExecuteParam) (next : Nat) (value : BinaryValue) (encoding : List UInt8) :
    Prop where
  ofType : value.OfType info.mysqlType
  encodes : value.Encodes encoding
  fits : value.Fits pos encoding
  slice : Slice tail pos encoding
  next_eq : next = pos + encoding.length
  param_eq : param = value.describe info pos encoding

theorem slice_sized {len : UInt8} (hlen : Slice tail pos [len])
    (hslice : Slice tail (pos + 1) bytes) (hbytes : bytes.length = len.toNat) :
    Slice tail pos (sized bytes) := by
  have hbyte : UInt8.ofNat bytes.length = len := by rw [hbytes, UInt8.ofNat_toNat]
  unfold sized
  rw [hbyte, ← singleton_append]
  exact slice_append.mpr ⟨hlen, hslice⟩

theorem length_sized (bytes : List UInt8) : (sized bytes).length = bytes.length + 1 := rfl

theorem parseTemporal_sound (htype : wireClass info.mysqlType = some .temporal)
    (h : parseTemporal tail pos (descriptor info) = .ok (param, next)) :
    ∃ value encoding, ValueAt tail pos info param next value encoding := by
  obtain ⟨⟨lenByte, behind⟩, hread, h⟩ := bind_eq_ok.mp h
  obtain ⟨hslice, hone, rfl⟩ := readFixed_eq_ok.mp hread
  obtain ⟨size, rfl⟩ := length_eq_one_iff.mp hone
  dsimp only at h
  rw [show [size].getD 0 0 = size from rfl,
    show (descriptor info).mysqlType = info.mysqlType from rfl] at h
  split at h
  · simp at h
  rename_i hexpected
  rw [Bool.not_eq_false] at hexpected
  obtain ⟨valueLen, hvalueLen, h⟩ := bind_eq_ok.mp h
  obtain ⟨-, rfl⟩ := toI32_eq_ok.mp hvalueLen
  have hempty : size.toNat = 0 → Slice tail pos (sized []) := by
    intro hzero
    exact slice_sized hslice (slice_nil.mpr hslice.length_le) hzero.symm
  rcases temporal_types.mp htype with htime | hdate
  · rw [htime] at hexpected
    have hlens := temporalLenExpected_time.mp hexpected
    split at h
    · rename_i hzero
      cases h
      refine ⟨.time none, sized [], htime, .noTime, trivial, hempty hzero, rfl, ?_⟩
      simp [BinaryValue.describe, descriptor, htime, hzero, ExecuteParam.empty]
    obtain ⟨time, htimeSlice, hlen, rfl, rfl⟩ := parseTime_sound (by omega) rfl h
    refine ⟨.time (some time), sized time.bytes, htime, .time time, trivial,
      slice_sized hslice htimeSlice hlen, ?_, ?_⟩
    · rw [length_sized]
      omega
    · rw [← hlen]
      rfl
  · have hlens := (temporalLenExpected_date hdate).mp hexpected
    split at h
    · rename_i hzero
      cases h
      refine ⟨.date none, sized [], hdate, .noDate, trivial, hempty hzero, rfl, ?_⟩
      simp [BinaryValue.describe, descriptor, date_ne_time hdate, hzero, ExecuteParam.empty]
    rw [if_neg (date_ne_time hdate)] at h
    obtain ⟨date, hdateSlice, hlen, rfl, rfl⟩ := parseDate_sound (by omega) rfl h
    refine ⟨.date (some date), sized date.bytes, hdate, .date date, trivial,
      slice_sized hslice hdateSlice hlen, ?_, ?_⟩
    · rw [length_sized]
      omega
    · rw [← hlen]
      rfl

theorem sized_byte (hlen : bytes.length < 256) :
    (UInt8.ofNat bytes.length).toNat = bytes.length := by
  rw [UInt8.toNat_ofNat', mod_eq_of_lt hlen]

/-- What `parse_temporal` does behind a length byte that the type may have. -/
theorem parseTemporal_sized (hlen : bytes.length < 256)
    (hexpected : temporalLenExpected out.mysqlType bytes.length = true)
    (hslice : Slice tail pos (sized bytes)) :
    parseTemporal tail pos out =
      if bytes.length = 0 then
        .ok ({ out with
          valueLen := 0
          kind := if out.mysqlType = mysqlTypeTime then .time else dateKind out.mysqlType },
          pos + 1)
      else if out.mysqlType = mysqlTypeTime then
        parseTime tail (pos + 1) bytes.length { out with valueLen := bytes.length }
      else parseDate tail (pos + 1) bytes.length { out with valueLen := bytes.length } := by
  unfold sized at hslice
  have hread : readFixed 1 tail pos = .ok ([UInt8.ofNat bytes.length], pos + 1) :=
    readFixed_slice (slice_append.mp hslice).1 rfl
  have hsmall : bytes.length < 2 ^ 31 := by omega
  unfold parseTemporal
  rw [hread]
  simp only [bind, Except.bind, getD_cons_zero, sized_byte hlen, hexpected,
    toI32_eq_ok.mpr ⟨hsmall, rfl⟩, Bool.true_eq_false, if_false, pure, Except.pure]
  split
  · rename_i hzero
    rw [hzero]
  · rfl

theorem slice_behind_size (hslice : Slice tail pos (sized bytes)) : Slice tail (pos + 1) bytes := by
  unfold sized at hslice
  rw [← singleton_append] at hslice
  exact (slice_append.mp hslice).2

theorem parseTemporal_time {value : Option TimeValue} (htime : info.mysqlType = mysqlTypeTime)
    (hencodes : (BinaryValue.time value).Encodes encoding) (hslice : Slice tail pos encoding) :
    parseTemporal tail pos (descriptor info) =
      .ok ((BinaryValue.time value).describe info pos encoding, pos + encoding.length) := by
  have hout : (descriptor info).mysqlType = mysqlTypeTime := htime
  cases hencodes with
  | noTime =>
    have hexpected : temporalLenExpected (descriptor info).mysqlType 0 = true := by
      rw [hout]
      exact temporalLenExpected_time.mpr (.inl rfl)
    rw [parseTemporal_sized (by decide) hexpected hslice, if_pos length_nil, if_pos hout]
    rfl
  | time time =>
    have hlens := length_timeBytes time
    have hexpected : temporalLenExpected (descriptor info).mysqlType time.bytes.length = true := by
      rw [hout]
      exact temporalLenExpected_time.mpr (.inr hlens)
    rw [parseTemporal_sized (by omega) hexpected hslice, if_neg (by omega), if_pos hout]
    refine (parseTime_complete time rfl (slice_behind_size hslice)).trans ?_
    rw [length_sized, Nat.add_assoc, Nat.add_comm 1]
    rfl

theorem parseTemporal_date {value : Option DateValue}
    (hdate : info.mysqlType = mysqlTypeDate ∨ info.mysqlType = mysqlTypeDatetime ∨
      info.mysqlType = mysqlTypeTimestamp) (hencodes : (BinaryValue.date value).Encodes encoding)
    (hslice : Slice tail pos encoding) :
    parseTemporal tail pos (descriptor info) =
      .ok ((BinaryValue.date value).describe info pos encoding, pos + encoding.length) := by
  have hout : (descriptor info).mysqlType ≠ mysqlTypeTime := date_ne_time hdate
  cases hencodes with
  | noDate =>
    have hexpected : temporalLenExpected (descriptor info).mysqlType 0 = true :=
      (temporalLenExpected_date hdate).mpr (.inl rfl)
    rw [parseTemporal_sized (by decide) hexpected hslice, if_pos length_nil, if_neg hout]
    rfl
  | date date =>
    have hlens := length_dateBytes date
    have hexpected := (temporalLenExpected_date hdate).mpr (.inr hlens)
    rw [parseTemporal_sized (by omega) hexpected hslice, if_neg (by omega), if_neg hout]
    refine (parseDate_complete date rfl (slice_behind_size hslice)).trans ?_
    rw [length_sized, Nat.add_assoc, Nat.add_comm 1]
    rfl

/-! One parameter. -/

theorem integerWidth_eq_some : integerWidth mysqlType = some width ↔
      (wireClass mysqlType = some .tiny ∧ width = 1) ∨
      (wireClass mysqlType = some .short ∧ width = 2) ∨
      (wireClass mysqlType = some .long ∧ width = 4) ∨
      (wireClass mysqlType = some .longlong ∧ width = 8) := by
  unfold integerWidth wireClass
  split <;> simp [eq_comm]
  split <;> simp_all

theorem float_type : wireClass mysqlType = some .float ↔ mysqlType = 4 := by
  unfold wireClass
  split <;> simp_all

theorem double_type : wireClass mysqlType = some .double ↔ mysqlType = 5 := by
  unfold wireClass
  split <;> simp_all

theorem year_type : wireClass mysqlType = some .year ↔ mysqlType = 13 := by
  unfold wireClass
  split <;> simp_all

theorem encodedParam_of_value (value : BinaryValue)
    (h : ∃ encoding, ValueAt tail pos info param next value encoding) :
    ∃ encoding, EncodedParam info pos false false encoding param ∧
      Slice tail pos encoding ∧ next = pos + encoding.length := by
  obtain ⟨encoding, hat⟩ := h
  refine ⟨encoding, ?_, hat.slice, hat.next_eq⟩
  rw [hat.param_eq]
  exact .value hat.ofType hat.encodes hat.fits

theorem parseValue_sound {isNull hasLongData : Bool} (hpos : pos ≤ tail.length)
    (h : parseValue tail pos info isNull hasLongData = .ok (param, next)) :
    info.reserved = 0 ∧ ∃ encoding, EncodedParam info pos isNull hasLongData encoding param ∧
      Slice tail pos encoding ∧ next = pos + encoding.length := by
  unfold parseValue at h
  by_cases hreserved : info.reserved = 0
  swap
  · rw [if_pos hreserved] at h
    simp at h
  rw [if_neg (not_not.mpr hreserved)] at h
  refine ⟨hreserved, ?_⟩
  cases hasLongData with
  | true =>
    rw [if_pos rfl] at h
    split at h
    · simp at h
    rename_i hsupports
    cases h
    exact ⟨[], .longData isNull (by simpa using hsupports), slice_nil.mpr hpos, rfl⟩
  | false =>
  cases isNull with
  | true =>
    cases h
    exact ⟨[], .null, slice_nil.mpr hpos, rfl⟩
  | false =>
  have hinteger : ∀ width, integerWidth info.mysqlType = some width →
      parseInteger width tail pos (descriptor info) = .ok (param, next) →
      ∃ encoding, EncodedParam info pos false false encoding param ∧
        Slice tail pos encoding ∧ next = pos + encoding.length := by
    intro width hwidth hparse
    obtain ⟨raw, hslice, rfl, rfl⟩ := parseInteger_sound hparse
    exact encodedParam_of_value (.integer width raw)
      ⟨_, hwidth, .integer width raw, trivial, hslice, by simp, rfl⟩
  rw [if_neg Bool.false_ne_true, if_neg Bool.false_ne_true] at h
  split at h
  · simp at h
  split at h
  swap
  · simp at h
  rename_i cls hclass
  cases cls with
  | tiny => exact hinteger 1 (integerWidth_eq_some.mpr (by simp [hclass])) h
  | short => exact hinteger 2 (integerWidth_eq_some.mpr (by simp [hclass])) h
  | long => exact hinteger 4 (integerWidth_eq_some.mpr (by simp [hclass])) h
  | longlong =>
    refine hinteger 8 (integerWidth_eq_some.mpr (by simp [hclass])) ?_
    rw [← parseLonglong_eq]
    exact h
  | float =>
    obtain ⟨raw, hslice, rfl, rfl⟩ := parseBits_sound h
    exact encodedParam_of_value (.float raw)
      ⟨_, float_type.mp hclass, .float raw, trivial, hslice, by simp, rfl⟩
  | double =>
    obtain ⟨raw, hslice, rfl, rfl⟩ := parseBits_sound h
    refine encodedParam_of_value (.double raw)
      ⟨_, double_type.mp hclass, .double raw, trivial, hslice, by simp, ?_⟩
    simp [BinaryValue.describe]
  | year =>
    obtain ⟨raw, hslice, rfl, rfl⟩ := parseBits_sound h
    exact encodedParam_of_value (.year raw)
      ⟨_, year_type.mp hclass, .year raw, trivial, hslice, by simp, rfl⟩
  | temporal =>
    obtain ⟨value, encoding, hat⟩ := parseTemporal_sound hclass h
    exact encodedParam_of_value value ⟨encoding, hat⟩
  | lenenc =>
    obtain ⟨data, encoding, hencodes, hfits, hslice, hnext, hparam⟩ :=
      parseLenencBytes_sound h
    exact encodedParam_of_value (.bytes data)
      ⟨encoding, hclass, hencodes, hfits, hslice, hnext, hparam⟩

theorem parseValue_of_class {cls : WireClass} (hreserved : info.reserved = 0)
    (hclass : wireClass info.mysqlType = some cls) :
    parseValue tail pos info false false = parseClass cls tail pos (descriptor info) := by
  have hnull : info.mysqlType ≠ mysqlTypeNull := by
    intro hnull
    rw [hnull] at hclass
    cases hclass
  unfold parseValue
  rw [if_neg (not_not.mpr hreserved), if_neg Bool.false_ne_true, if_neg Bool.false_ne_true,
    if_neg hnull, hclass]

theorem parseValue_complete {isNull hasLongData : Bool} (hreserved : info.reserved = 0)
    (hparam : EncodedParam info pos isNull hasLongData encoding param)
    (hslice : Slice tail pos encoding) :
    parseValue tail pos info isNull hasLongData = .ok (param, pos + encoding.length) := by
  cases hparam with
  | longData isNull htype => simp [parseValue, hreserved, htype]
  | null => simp [parseValue, hreserved]
  | @value value encoding htype hencodes hfits =>
  cases hencodes with
  | integer width raw =>
    have hparse : ∀ cls, wireClass info.mysqlType = some cls →
        parseClass cls tail pos (descriptor info) = parseInteger width tail pos (descriptor info) →
        parseValue tail pos info false false = _ := fun cls hclass harm =>
      (parseValue_of_class hreserved hclass).trans
        (harm.trans (parseInteger_complete raw hslice))
    rcases integerWidth_eq_some.mp htype with ⟨hclass, rfl⟩ | ⟨hclass, rfl⟩ |
      ⟨hclass, rfl⟩ | ⟨hclass, rfl⟩
    · exact hparse _ hclass rfl
    · exact hparse _ hclass rfl
    · exact hparse _ hclass rfl
    · exact hparse _ hclass (parseLonglong_eq _ _ _)
  | float bits =>
    rw [parseValue_of_class hreserved (float_type.mpr htype), length_leBytes]
    exact parseBits_complete .f32Bits _ (show BitVec (8 * 4) from bits) hslice
  | double bits =>
    rw [parseValue_of_class hreserved (double_type.mpr htype), length_leBytes]
    refine (parseBits_complete .f64Bits _ bits hslice).trans ?_
    simp [BinaryValue.describe]
  | year value =>
    rw [parseValue_of_class hreserved (year_type.mpr htype), length_leBytes]
    exact parseBits_complete .year _ (show BitVec (8 * 2) from value) hslice
  | noTime =>
    rw [parseValue_of_class hreserved (temporal_types.mpr (.inl htype))]
    exact parseTemporal_time htype .noTime hslice
  | time time =>
    rw [parseValue_of_class hreserved (temporal_types.mpr (.inl htype))]
    exact parseTemporal_time htype (.time time) hslice
  | noDate =>
    rw [parseValue_of_class hreserved (temporal_types.mpr (.inr htype))]
    exact parseTemporal_date htype .noDate hslice
  | date date =>
    rw [parseValue_of_class hreserved (temporal_types.mpr (.inr htype))]
    exact parseTemporal_date htype (.date date) hslice
  | bytes data hlen =>
    rw [parseValue_of_class hreserved htype]
    exact parseLenencBytes_complete (.bytes data hlen) hfits hslice

/-! All parameters. -/

variable {bitmap longData : List UInt8} {metas : List ExecuteParamMeta}
  {params : List ExecuteParam}

theorem parseValues_sound {index : Nat} (hpos : pos ≤ tail.length)
    (h : parseValues tail bitmap longData index pos metas = .ok (params, next)) :
    ∃ body, EncodedParams bitmap longData index pos metas body params ∧
      Slice tail pos body ∧ next = pos + body.length := by
  induction metas generalizing index pos params with
  | nil =>
    cases h
    exact ⟨[], .nil index _, slice_nil.mpr hpos, rfl⟩
  | cons info rest ih =>
    obtain ⟨⟨param, behind⟩, hvalue, h⟩ := bind_eq_ok.mp h
    obtain ⟨⟨later, last⟩, hrest, h⟩ := bind_eq_ok.mp h
    cases h
    obtain ⟨hreserved, encoding, hparam, hslice, rfl⟩ := parseValue_sound hpos hvalue
    obtain ⟨body, hbody, hslice', rfl⟩ := ih hslice.length_le hrest
    refine ⟨encoding ++ body, .cons hreserved hparam hbody, slice_append.mpr ⟨hslice, hslice'⟩, ?_⟩
    rw [length_append, Nat.add_assoc]

theorem parseValues_complete {index : Nat} {body : List UInt8}
    (hparams : EncodedParams bitmap longData index pos metas body params)
    (hslice : Slice tail pos body) :
    parseValues tail bitmap longData index pos metas = .ok (params, pos + body.length) := by
  induction hparams with
  | nil => rfl
  | @cons index pos info rest encoding body param params hreserved hparam _ ih =>
    obtain ⟨hfirst, hlater⟩ := slice_append.mp hslice
    unfold parseValues
    rw [parseValue_complete hreserved hparam hfirst]
    simp only [bind, Except.bind, ih hlater, pure, Except.pure, length_append, Nat.add_assoc]

end

end SeekDB.Nio
