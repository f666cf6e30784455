/-
Headers of log entries and of groups of entries (log_entry_header.cpp,
log_group_entry_header.cpp), and the header of a padding's body
(ob_log_base_header.cpp).

A buffer is the list of its bytes and a read position is what is left of the
list.  The two hash functions are arbitrary; as a header's fields fill its
memory completely, hashing that memory is a function of the fields.
-/
import SeekDB.PalfDefine
import SeekDB.ByteCodec

namespace SeekDB

open ByteCodec

structure LogEntryHeader where
  magic : Nat
  version : Nat
  logSize : Int
  scn : Nat
  dataChecksum : BitVec 64
  flag : BitVec 64
  deriving Repr, DecidableEq

structure LogGroupEntryHeader where
  magic : Nat
  version : Nat
  groupSize : Int
  committedEndLsn : Nat
  maxScn : Nat
  accumulatedChecksum : BitVec 64
  logId : Int
  flag : BitVec 64
  deriving Repr, DecidableEq

/-- `ob_crc64` and `xxhash_16`. -/
structure Checksums where
  /-- Checksum of one 64-bit number, from a seed. -/
  crc64 : BitVec 64 → BitVec 64 → BitVec 64
  /-- Checksum of a buffer. -/
  crc64Buf : List UInt8 → BitVec 64
  entryHash : LogEntryHeader → BitVec 16
  groupHash : LogGroupEntryHeader → BitVec 16

/-- `PADDING_TYPE_MASK` of both headers. -/
def paddingTypeMask : BitVec 64 := 1#64 <<< 62

def crc16Mask : BitVec 64 := 0xffff#64

/-- The fields of an 8-byte word. -/
def word64 (value : BitVec 64) : Nat × Nat := (8, value.toNat)

/-- `SCN::fixed_deserialize`. -/
def scnOfWord (val : Nat) : Nat := if val = 2 ^ 63 - 1 then obMaxScnTsNs else val

/-- The value that an `int32_t` member keeps. -/
def int32 (x : Int) : Int := toSigned 4 (toUnsigned 4 x)

section

/-- `ObLogBaseHeader` of a padding: version 1, type 25, no barrier, no hint. -/
def paddingBaseHeader : List UInt8 :=
  encodeFields [(2, 1), (2, 25), (4, 0), (8, 0)]

def logBaseHeaderSize : Nat := 16

/-- `PADDING_LOG_ENTRY_SIZE`. -/
def paddingLogEntrySize : Nat := logEntryHeaderSize + logBaseHeaderSize

end

section

variable (flag : BitVec 64) (checksum : BitVec 16)

/-- The flag with the checksum in its low bits. -/
def setCrc16 (flag : BitVec 64) (checksum : BitVec 16) : BitVec 64 :=
  (flag &&& ~~~crc16Mask) ||| checksum.zeroExtend 64

/-- `is_padding_log`. -/
def flagIsPadding (flag : BitVec 64) : Bool := decide (0 < (flag &&& paddingTypeMask).toInt)

end

/-! Log entries. -/

namespace LogEntryHeader

/-- `MAGIC`. -/
def entryMagic : Nat := 0x4C48

/-- `LOG_ENTRY_HEADER_VERSION`. -/
def entryVersion : Nat := 2

/-- A default-constructed header. -/
def empty : LogEntryHeader := ⟨0, 0, 0, obInvalidScnVal, 0, 0⟩

def isValid (header : LogEntryHeader) : Bool :=
  decide (header.magic = entryMagic) && decide (header.version = entryVersion) &&
    decide (0 < header.logSize) && scnIsValid header.scn

variable (hashes : Checksums)

/-- `calculate_header_checksum_`. -/
def calculateHeaderChecksum (header : LogEntryHeader) : BitVec 16 :=
  hashes.entryHash { header with flag := header.flag &&& ~~~crc16Mask }

/-- `update_header_checksum_`. -/
def updateHeaderChecksum (header : LogEntryHeader) : LogEntryHeader :=
  let cleared := { header with flag := header.flag &&& ~~~crc16Mask }
  { header with
    flag := setCrc16 header.flag (calculateHeaderChecksum hashes cleared) }

/-- `check_header_checksum_`. -/
def checkHeaderChecksum (header : LogEntryHeader) : Bool :=
  decide (header.version = entryVersion) &&
    decide ((calculateHeaderChecksum hashes header).zeroExtend 64 = header.flag &&& crc16Mask)

def checkHeaderIntegrity (header : LogEntryHeader) : Bool :=
  header.isValid && header.checkHeaderChecksum hashes

/-- `check_integrity` against the entry's data. -/
def checkIntegrity (header : LogEntryHeader) (buf : List UInt8) : Bool :=
  let validDataLen := if flagIsPadding header.flag then logBaseHeaderSize else buf.length
  !buf.isEmpty && decide (header.magic = entryMagic) &&
    header.checkHeaderChecksum hashes &&
    decide (header.dataChecksum = hashes.crc64Buf (buf.take validDataLen))

def generateHeader (logData : List UInt8) (scn : Nat) : Except ObRet LogEntryHeader :=
  if logData.isEmpty ∨ scnIsValid scn = false then .error .invalidArgument
  else .ok (updateHeaderChecksum hashes
    { empty with
      magic := entryMagic
      version := entryVersion
      logSize := int32 logData.length
      scn := scn
      dataChecksum := hashes.crc64Buf logData })

/-- `generate_padding_header_` for the base header of a padding. -/
def generatePaddingHeader (paddingDataLen : Int) (scn : Nat) :
    Except ObRet LogEntryHeader :=
  if paddingDataLen ≤ 0 ∨ scnIsValid scn = false then .error .invalidArgument
  else .ok (updateHeaderChecksum hashes
    { empty with
      magic := entryMagic
      version := entryVersion
      logSize := int32 paddingDataLen
      scn := scn
      dataChecksum := hashes.crc64Buf paddingBaseHeader
      flag := empty.flag ||| paddingTypeMask })

/-- The bytes of a header, whatever its version. -/
def bytes (header : LogEntryHeader) : List UInt8 :=
  encodeFields
    [(2, header.magic), (2, header.version), (4, toUnsigned 4 header.logSize), (8, header.scn),
      word64 header.dataChecksum, word64 header.flag]

def serialize (header : LogEntryHeader) : Except ObRet (List UInt8) :=
  if header.version ≠ entryVersion then .error .versionNotMatch
  else .ok header.bytes

/-- `deserialize`, with the rest of the buffer. -/
def deserialize (buf : List UInt8) : Except ObRet (LogEntryHeader × List UInt8) :=
  if buf.isEmpty then .error .invalidArgument
  else
    match decodeFields [2, 2] buf with
    | some ([magic, version], body) =>
      if version ≠ entryVersion then .error .versionNotMatch
      else
        match decodeFields [4, 8, 8, 8] body with
        | some ([logSize, scn, dataChecksum, flag], rest) =>
          let header : LogEntryHeader :=
            ⟨magic, version, toSigned 4 logSize, scnOfWord scn,
              BitVec.ofNat 64 dataChecksum, BitVec.ofNat 64 flag⟩
          if header.checkHeaderIntegrity hashes then .ok (header, rest)
          else .error .invalidData
        | _ => .error .bufNotEnough
    | _ => .error .bufNotEnough

/-- `generate_padding_log_buf`: header and base header of a padding entry. -/
def generatePaddingLogBuf (paddingDataLen : Int) (scn : Nat) (paddingValidDataLen : Int) :
    Except ObRet (List UInt8) :=
  if paddingDataLen ≤ 0 ∨ scnIsValid scn = false ∨
      paddingValidDataLen < paddingLogEntrySize ∨
      paddingDataLen < paddingValidDataLen then .error .invalidArgument
  else do
    let header ← generatePaddingHeader hashes paddingDataLen scn
    let headerBytes ← header.serialize
    return headerBytes ++ paddingBaseHeader

end LogEntryHeader

end SeekDB
