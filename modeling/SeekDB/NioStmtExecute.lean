/-
Parameters of COM_STMT_EXECUTE (stmt_execute.rs, codec.rs).

Positions are natural numbers: a sum that would overflow lies behind the end of
the tail anyway.  Memory for the results can always be had.
-/
import SeekDB.ByteSlice

namespace SeekDB.Nio

open ByteCodec

inductive ParseError
  | malformed
  | obExtension
  | capacity
  deriving Repr, DecidableEq

/-- `NIO_MYSQL_EXECUTE_VALUE_*`; `unset` is the zero of a default descriptor. -/
inductive ValueKind
  | unset
  | null
  | i64
  | u64
  | f32Bits
  | f64Bits
  | bytes
  | year
  | date
  | datetime
  | timestamp
  | time
  | longData
  deriving Repr, DecidableEq

/-- `NioMysqlExecuteParamMeta`. -/
structure ExecuteParamMeta where
  mysqlType : Nat
  typeFlags : UInt8
  reserved : UInt8
  deriving Repr, DecidableEq

/-- `NioMysqlExecuteParam`; its reserved bytes are always zero. -/
structure ExecuteParam where
  value : BitVec 64
  valueOff : Nat
  valueLen : Nat
  days : Nat
  microseconds : Nat
  year : Nat
  mysqlType : Nat
  typeFlags : UInt8
  kind : ValueKind
  flags : UInt8
  month : UInt8
  day : UInt8
  hour : UInt8
  minute : UInt8
  second : UInt8
  deriving Repr, DecidableEq

/-! `MYSQL_TYPE_*`. -/

def mysqlTypeNull : Nat := 6
def mysqlTypeTimestamp : Nat := 7
def mysqlTypeDate : Nat := 10
def mysqlTypeTime : Nat := 11
def mysqlTypeDatetime : Nat := 12
def mysqlTypeNewdate : Nat := 14

/-- The encodings that `parse_value` tells apart. -/
inductive WireClass
  | tiny
  | short
  | long
  | longlong
  | float
  | double
  | year
  | temporal
  | lenenc
  deriving Repr, DecidableEq

/-- The encoding of a type; `none` is malformed, `MYSQL_TYPE_NEWDATE` included. -/
def wireClass (mysqlType : Nat) : Option WireClass :=
  match mysqlType with
  | 1 => some .tiny
  | 2 => some .short
  | 3 | 9 => some .long
  | 8 => some .longlong
  | 4 => some .float
  | 5 => some .double
  | 13 => some .year
  | 10 | 11 | 12 | 7 => some .temporal
  | 0 | 15 | 16 | 245 | 246 | 247 | 248 | 249 | 250 | 251 | 252 | 253 | 254 | 255 =>
    some .lenenc
  | _ => none

def isObExtension (mysqlType : Nat) : Bool :=
  [160, 161, 162, 163, 200, 201, 202, 203, 206, 207, 208, 209, 210, 211, 215, 216, 217,
    218, 219, 256, 257, 258].contains mysqlType

def supportsLongData (mysqlType : Nat) : Bool :=
  [15, 245, 246, 249, 250, 251, 252, 253, 254, 255].contains mysqlType

/-- `UNSIGNED_TYPE_FLAG`. -/
def unsignedTypeFlag : UInt8 := 0x80

/-- `NIO_MYSQL_EXECUTE_PARAM_UNSIGNED` and `NIO_MYSQL_EXECUTE_PARAM_NEGATIVE`. -/
def paramUnsigned : UInt8 := 1

def paramNegative : UInt8 := 2

def ExecuteParam.empty : ExecuteParam :=
  ⟨0, 0, 0, 0, 0, 0, 0, 0, .unset, 0, 0, 0, 0, 0, 0⟩

def descriptor (info : ExecuteParamMeta) : ExecuteParam :=
  { ExecuteParam.empty with
    mysqlType := info.mysqlType
    typeFlags := info.typeFlags
    flags := if info.typeFlags &&& unsignedTypeFlag ≠ 0 then paramUnsigned else 0 }

/-! Reading. -/

def toI32 (value : Nat) : Except ParseError Nat :=
  if value < 2 ^ 31 then .ok value else .error .capacity

/-- `read_fixed`, with the position behind the bytes. -/
def readFixed (len : Nat) (tail : List UInt8) (pos : Nat) :
    Except ParseError (List UInt8 × Nat) :=
  if tail.length < pos + len then .error .malformed
  else .ok ((tail.drop pos).take len, pos + len)

/-- `read_lenenc`: the number and the length of its encoding. -/
def readLenenc (buf : List UInt8) (start : Nat) : Option (Nat × Nat) :=
  match buf.drop start with
  | [] => none
  | s :: rest =>
    if s < 251 then some (s.toNat, 1)
    else if s = 252 then
      if 2 ≤ rest.length then some (leNat (rest.take 2), 3) else none
    else if s = 253 then
      if 3 ≤ rest.length then some (leNat (rest.take 3), 4) else none
    else if s = 254 then
      if 8 ≤ rest.length then some (leNat (rest.take 8), 9) else none
    else none

def parseLenencBytes (tail : List UInt8) (pos : Nat) (out : ExecuteParam) :
    Except ParseError (ExecuteParam × Nat) :=
  match readLenenc tail pos with
  | none => .error .malformed
  | some (len, prefixLen) =>
    let start := pos + prefixLen
    if tail.length < start + len then .error .malformed
    else do
      let valueOff ← toI32 start
      let valueLen ← toI32 len
      return ({ out with kind := .bytes, valueOff := valueOff, valueLen := valueLen }, start + len)

/-- The kind of a temporal value that is not a time. -/
def dateKind (mysqlType : Nat) : ValueKind :=
  if mysqlType = mysqlTypeDate ∨ mysqlType = mysqlTypeNewdate then .date
  else if mysqlType = mysqlTypeDatetime then .datetime
  else .timestamp

/-- The lengths that a temporal type may have. -/
def temporalLenExpected (mysqlType len : Nat) : Bool :=
  if mysqlType = mysqlTypeTime then [0, 8, 12].contains len
  else if mysqlType = mysqlTypeDate ∨ mysqlType = mysqlTypeNewdate ∨
      mysqlType = mysqlTypeDatetime ∨ mysqlType = mysqlTypeTimestamp then
    [0, 4, 7, 11].contains len
  else false

/-- The part of `parse_temporal` for a time that is not empty. -/
def parseTime (tail : List UInt8) (pos len : Nat) (out : ExecuteParam) :
    Except ParseError (ExecuteParam × Nat) := do
  let (bytes, pos) ← readFixed 8 tail pos
  let timed :=
    { out with
      flags := if bytes.getD 0 0 ≠ 0 then out.flags ||| paramNegative else out.flags
      days := leNat ((bytes.drop 1).take 4)
      hour := bytes.getD 5 0
      minute := bytes.getD 6 0
      second := bytes.getD 7 0 }
  if len = 12 then
    let (micros, pos) ← readFixed 4 tail pos
    return ({ timed with microseconds := leNat micros, kind := .time }, pos)
  else return ({ timed with kind := .time }, pos)

/-- The part of `parse_temporal` for a date that is not empty. -/
def parseDate (tail : List UInt8) (pos len : Nat) (out : ExecuteParam) :
    Except ParseError (ExecuteParam × Nat) := do
  let (date, pos) ← readFixed 4 tail pos
  let dated :=
    { out with
      year := leNat (date.take 2)
      month := date.getD 2 0
      day := date.getD 3 0 }
  let (timed, pos) ←
    if 7 ≤ len then do
      let (time, pos) ← readFixed 3 tail pos
      pure ({ dated with
        hour := time.getD 0 0
        minute := time.getD 1 0
        second := time.getD 2 0 }, pos)
    else pure (dated, pos)
  if len = 11 then
    let (micros, pos) ← readFixed 4 tail pos
    return ({ timed with microseconds := leNat micros, kind := dateKind out.mysqlType }, pos)
  else return ({ timed with kind := dateKind out.mysqlType }, pos)

def parseTemporal (tail : List UInt8) (pos : Nat) (out : ExecuteParam) :
    Except ParseError (ExecuteParam × Nat) := do
  let (lenByte, pos) ← readFixed 1 tail pos
  let len := (lenByte.getD 0 0).toNat
  if temporalLenExpected out.mysqlType len = false then .error .malformed
  else
    let valueLen ← toI32 len
    let sized := { out with valueLen := valueLen }
    if len = 0 then
      return ({ sized with
        kind := if out.mysqlType = mysqlTypeTime then .time else dateKind out.mysqlType }, pos)
    else if out.mysqlType = mysqlTypeTime then parseTime tail pos len sized
    else parseDate tail pos len sized

/-- The three arms for integers of one, two and four bytes. -/
def parseInteger (width : Nat) (tail : List UInt8) (pos : Nat) (out : ExecuteParam) :
    Except ParseError (ExecuteParam × Nat) := do
  let (bytes, pos) ← readFixed width tail pos
  let raw := BitVec.ofNat (8 * width) (leNat bytes)
  if out.flags &&& paramUnsigned ≠ 0 then
    return ({ out with kind := .u64, value := raw.zeroExtend 64 }, pos)
  else return ({ out with kind := .i64, value := raw.signExtend 64 }, pos)

/-- The arm for integers of eight bytes. -/
def parseLonglong (tail : List UInt8) (pos : Nat) (out : ExecuteParam) :
    Except ParseError (ExecuteParam × Nat) := do
  let (bytes, pos) ← readFixed 8 tail pos
  return ({ out with
    kind := if out.flags &&& paramUnsigned ≠ 0 then .u64 else .i64
    value := BitVec.ofNat 64 (leNat bytes) }, pos)

/-- The arms that store the bits they read: floating point numbers and years. -/
def parseBits (width : Nat) (kind : ValueKind) (tail : List UInt8) (pos : Nat)
    (out : ExecuteParam) : Except ParseError (ExecuteParam × Nat) := do
  let (bytes, pos) ← readFixed width tail pos
  return ({ out with kind := kind, value := BitVec.ofNat 64 (leNat bytes) }, pos)

/-- The arms of the `match` in `parse_value`. -/
def parseClass (cls : WireClass) (tail : List UInt8) (pos : Nat) (out : ExecuteParam) :
    Except ParseError (ExecuteParam × Nat) :=
  match cls with
  | .tiny => parseInteger 1 tail pos out
  | .short => parseInteger 2 tail pos out
  | .long => parseInteger 4 tail pos out
  | .longlong => parseLonglong tail pos out
  | .float => parseBits 4 .f32Bits tail pos out
  | .double => parseBits 8 .f64Bits tail pos out
  | .year => parseBits 2 .year tail pos out
  | .temporal => parseTemporal tail pos out
  | .lenenc => parseLenencBytes tail pos out

/-- `parse_value`, with the position behind the value. -/
def parseValue (tail : List UInt8) (pos : Nat) (info : ExecuteParamMeta)
    (isNull hasLongData : Bool) : Except ParseError (ExecuteParam × Nat) :=
  let out := descriptor info
  if info.reserved ≠ 0 then .error .malformed
  else if hasLongData then
    if supportsLongData info.mysqlType = false then .error .malformed
    else .ok ({ out with kind := .longData }, pos)
  else if isNull then .ok ({ out with kind := .null }, pos)
  else if info.mysqlType = mysqlTypeNull then .error .malformed
  else
    match wireClass info.mysqlType with
    | some cls => parseClass cls tail pos out
    | none => .error .malformed

/-! The whole tail. -/

/-- The entries of an inline type table. -/
def tableMetas : List UInt8 → List ExecuteParamMeta
  | mysqlType :: typeFlags :: rest => ⟨mysqlType.toNat, typeFlags, 0⟩ :: tableMetas rest
  | _ => []

def isNullParam (bitmap : List UInt8) (index : Nat) : Bool :=
  decide (bitmap.getD (index / 8) 0 &&& (1 <<< UInt8.ofNat (index % 8)) ≠ 0)

def hasLongDataParam (longData : List UInt8) (index : Nat) : Bool :=
  !longData.isEmpty && decide (longData.getD index 0 ≠ 0)

/-- The loop over the parameters, from the parameter `index` on. -/
def parseValues (tail bitmap longData : List UInt8) :
    Nat → Nat → List ExecuteParamMeta → Except ParseError (List ExecuteParam × Nat)
  | _, pos, [] => .ok ([], pos)
  | index, pos, info :: rest => do
    let (param, pos) ← parseValue tail pos info (isNullParam bitmap index)
      (hasLongDataParam longData index)
    let (params, pos) ← parseValues tail bitmap longData (index + 1) pos rest
    return (param :: params, pos)

/-- The types of the parameters and the position behind the type table. -/
def parseTypes (tail : List UInt8) (paramCount : Nat) (cached : List ExecuteParamMeta)
    (newFlag : UInt8) (pos : Nat) : Except ParseError (List ExecuteParamMeta × Nat) :=
  if newFlag = 1 then do
    let (table, pos) ← readFixed (paramCount * 2) tail pos
    return (tableMetas table, pos)
  else if cached.length ≠ paramCount ∨ cached.any (fun info => info.reserved != 0) then
    .error .malformed
  else .ok (cached, pos)

/-- `parse`: the descriptors and the new-params flag. -/
def parse (tail : List UInt8) (paramCount : Nat) (cached : List ExecuteParamMeta)
    (longData : List UInt8) : Except ParseError (List ExecuteParam × UInt8) :=
  if paramCount = 0 then
    if !tail.isEmpty || !cached.isEmpty || !longData.isEmpty then .error .malformed
    else .ok ([], 0)
  else
    let bitmapLen := (paramCount + 7) / 8
    match tail[bitmapLen]? with
    | none => .error .malformed
    | some newFlag => do
      let (metas, pos) ← parseTypes tail paramCount cached newFlag (bitmapLen + 1)
      if metas.any (fun info => isObExtension info.mysqlType) then .error .obExtension
      else if !longData.isEmpty &&
          (longData.length != paramCount || longData.any (fun value => 1 < value)) then
        .error .malformed
      else
        let (params, pos) ← parseValues tail (tail.take bitmapLen) longData 0 pos metas
        if pos ≠ tail.length then .error .malformed else return (params, newFlag)

end SeekDB.Nio
