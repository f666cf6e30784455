/-
Group entries: the group header, the entries of a body and the checksums over
them (log_group_entry_header.cpp, log_entry.cpp, log_group_entry.cpp,
log_checksum.cpp).

The body of a group is the list of the logs appended to it.  The writer walks
the body in the pieces of the ring buffer (`LogWriteBuf`), the reader in one
contiguous buffer; both compute the checksum of the list of logs.
-/
import SeekDB.LogEntryHeader

namespace SeekDB

/-- A deserialized `LogEntry`: header and data. -/
structure LogEntry where
  header : LogEntryHeader
  buf : List UInt8
  deriving Repr, DecidableEq

namespace LogEntry

variable (hashes : Checksums)

/-- `LogEntry::deserialize`, with the rest of the buffer. -/
def deserialize (buf : List UInt8) : Except ObRet (LogEntry × List UInt8) :=
  match LogEntryHeader.deserialize hashes buf with
  | .error ret => .error ret
  | .ok (header, body) =>
    if (body.length : Int) < header.logSize then .error .bufNotEnough
    else .ok (⟨header, body.take header.logSize.toNat⟩, body.drop header.logSize.toNat)

def checkIntegrity (entry : LogEntry) : Bool :=
  entry.header.checkIntegrity hashes entry.buf

end LogEntry

namespace LogGroupEntryHeader

/-- `MAGIC`. -/
def groupMagic : Nat := 0x4752

/-- `LOG_GROUP_ENTRY_HEADER_VERSION`. -/
def groupVersion : Nat := 3

/-- A header after `reset`. -/
def empty : LogGroupEntryHeader := ⟨0, 0, 0, logInvalidLsnVal, obInvalidScnVal, 0, 0, 0⟩

def isValid (header : LogGroupEntryHeader) : Bool :=
  decide (header.magic = groupMagic) && decide (header.version = groupVersion) &&
    lsnIsValid header.committedEndLsn && scnIsValid header.maxScn &&
    decide (0 < header.logId)

def isPaddingLog (header : LogGroupEntryHeader) : Bool := flagIsPadding header.flag

variable (hashes : Checksums)

/-- `calculate_header_checksum_`. -/
def calculateHeaderChecksum (header : LogGroupEntryHeader) : BitVec 16 :=
  hashes.groupHash { header with flag := header.flag &&& ~~~crc16Mask }

def updateHeaderChecksum (header : LogGroupEntryHeader) : LogGroupEntryHeader :=
  let cleared := { header with flag := header.flag &&& ~~~crc16Mask }
  { header with
    flag := setCrc16 header.flag (calculateHeaderChecksum hashes cleared) }

/-- `check_header_checksum_`. -/
def checkHeaderChecksum (header : LogGroupEntryHeader) : Bool :=
  decide (header.version = groupVersion) &&
    decide ((calculateHeaderChecksum hashes header).zeroExtend 64 = header.flag &&& crc16Mask)

def checkHeaderIntegrity (header : LogGroupEntryHeader) : Bool :=
  header.isValid && header.checkHeaderChecksum hashes

/-- The bytes of a header, whatever its version. -/
def bytes (header : LogGroupEntryHeader) : List UInt8 :=
  ByteCodec.encodeFields
    [(2, header.magic), (2, header.version),
      (4, ByteCodec.toUnsigned 4 header.groupSize), (8, header.committedEndLsn),
      (8, header.maxScn), word64 header.accumulatedChecksum,
      (8, ByteCodec.toUnsigned 8 header.logId), word64 header.flag]

def serialize (header : LogGroupEntryHeader) : Except ObRet (List UInt8) :=
  if header.version ≠ groupVersion then .error .versionNotMatch
  else .ok header.bytes

/-- `deserialize`, with the rest of the buffer. -/
def deserialize (buf : List UInt8) :
    Except ObRet (LogGroupEntryHeader × List UInt8) :=
  if buf.isEmpty then .error .invalidArgument
  else
    match ByteCodec.decodeFields [2, 2, 4, 8, 8, 8, 8, 8] buf with
    | some ([magic, version, groupSize, committedEndLsn, maxScn, accum, logId, flag], rest) =>
      let header : LogGroupEntryHeader :=
        ⟨magic, version, ByteCodec.toSigned 4 groupSize, committedEndLsn,
          scnOfWord maxScn, BitVec.ofNat 64 accum, ByteCodec.toSigned 8 logId,
          BitVec.ofNat 64 flag⟩
      if header.checkHeaderIntegrity hashes then .ok (header, rest)
      else .error .invalidData
    | _ => .error .bufNotEnough

/-- Where `calculate_log_checksum_` finds the next entry header. -/
structure HeaderPlace where
  /-- The bytes that the header is read from. -/
  buf : List UInt8
  /-- The piece that holds the end of the header, and the pieces after it. -/
  curr : List UInt8
  later : List (List UInt8)
  /-- The position behind the header in `curr`. -/
  pos : Nat

/-- The head of the loop of `calculate_log_checksum_`: `pos` is counted in
`curr`, and `later` are the pieces after it.  A failed `ob_assert` is an error
here. -/
def nextHeader (curr : List UInt8) (later : List (List UInt8)) (pos : Nat) :
    Except ObRet (Option HeaderPlace) :=
  if curr.length ≤ pos then
    match later with
    | [] => .ok none
    | next :: rest =>
      if pos - curr.length = next.length then .ok none
      else if next.length < pos - curr.length then .error .errUnexpected
      else .ok (some ⟨next.drop (pos - curr.length), next, rest,
        pos - curr.length + logEntryHeaderSize⟩)
  else if curr.length - pos < logEntryHeaderSize then
    -- the header is split between two pieces and put together in `tmp_buf`
    match later with
    | [] => .error .errUnexpected
    | next :: rest =>
      let copied := curr.length - pos
      .ok (some ⟨curr.drop pos ++ next.take (logEntryHeaderSize - copied), next, rest,
        logEntryHeaderSize - copied⟩)
  else .ok (some ⟨curr.drop pos, curr, later, pos + logEntryHeaderSize⟩)

/-- The loop of `calculate_log_checksum_`.  Every round takes an entry header,
so the bytes bound the rounds. -/
def checksumLoop : Nat → List UInt8 → List (List UInt8) → Nat → BitVec 64 →
    Except ObRet (BitVec 64)
  | 0, _, _, _, _ => .error .errUnexpected
  | fuel + 1, curr, later, pos, checksum =>
    match nextHeader curr later pos with
    | .error ret => .error ret
    | .ok none => .ok checksum
    | .ok (some place) =>
      match LogEntryHeader.deserialize hashes place.buf with
      | .error ret => .error ret
      | .ok (header, _) =>
        checksumLoop fuel place.curr place.later (place.pos + header.logSize.toNat)
          (hashes.crc64 checksum header.dataChecksum)

/-- `calculate_log_checksum_` over the pieces of a `LogWriteBuf`. -/
def calculateLogChecksum (isPaddingLog : Bool) (logWriteBuf : List (List UInt8)) (dataLen : Int) :
    Except ObRet (BitVec 64) :=
  match logWriteBuf with
  | [] => .error .invalidArgument
  | curr :: later =>
    if isPaddingLog then .ok 0
    else if dataLen + logGroupEntryHeaderSize ≠ logWriteBuf.flatten.length then
      .error .errUnexpected
    else checksumLoop hashes (logWriteBuf.flatten.length + 1) curr later
      logGroupEntryHeaderSize 0

/-- `generate`: the header and the checksum of the group's data. -/
def generate (isPadding : Bool) (logWriteBuf : List (List UInt8)) (dataLen : Int)
    (maxScn : Nat) (logId : Int) (committedEndLsn : Nat) :
    Except ObRet (LogGroupEntryHeader × BitVec 64) :=
  if scnIsValid maxScn = false ∨ logId ≤ 0 ∨ lsnIsValid committedEndLsn = false then
    .error .invalidArgument
  else
    match calculateLogChecksum hashes isPadding logWriteBuf dataLen with
    | .error ret => .error ret
    | .ok dataChecksum =>
      .ok ({ empty with
        magic := groupMagic
        version := groupVersion
        groupSize := int32 dataLen
        maxScn := maxScn
        logId := logId
        committedEndLsn := committedEndLsn
        flag := if isPadding then empty.flag ||| paddingTypeMask else empty.flag },
        dataChecksum)

/-- The loop of `check_log_checksum_`.  Every entry takes some bytes, so the
bytes bound the rounds. -/
def checkEntries : Nat → BitVec 64 → List UInt8 → Option (BitVec 64)
  | _, checksum, [] => some checksum
  | 0, _, _ :: _ => none
  | fuel + 1, checksum, byte :: buf =>
    match LogEntry.deserialize hashes (byte :: buf) with
    | .error _ => none
    | .ok (entry, rest) =>
      if entry.checkIntegrity hashes then
        checkEntries fuel (hashes.crc64 checksum entry.header.dataChecksum) rest
      else none

/-- `check_log_checksum_`: the checksum of the data, if it passes. -/
def checkLogChecksum (header : LogGroupEntryHeader) (buf : List UInt8) :
    Option (BitVec 64) :=
  if header.isPaddingLog then some 0 else checkEntries hashes buf.length 0 buf

/-- `check_integrity` against the `data_len` bytes of the body. -/
def checkIntegrity (header : LogGroupEntryHeader) (buf : List UInt8) :
    Option (BitVec 64) :=
  if header.magic ≠ groupMagic then none
  else if header.checkHeaderChecksum hashes = false then none
  else header.checkLogChecksum hashes buf

end LogGroupEntryHeader

/-- `LogChecksum`. -/
structure LogChecksum where
  prevAccumChecksum : BitVec 64
  accumChecksum : BitVec 64
  verifyChecksum : BitVec 64
  deriving Repr, DecidableEq

namespace LogChecksum

variable (hashes : Checksums)

def init (accumChecksum : BitVec 64) : LogChecksum := ⟨0, accumChecksum, accumChecksum⟩

/-- `acquire_accum_checksum`; the result is the new `accumChecksum`. -/
def acquireAccumChecksum (state : LogChecksum) (dataChecksum : BitVec 64) : LogChecksum :=
  { state with
    prevAccumChecksum := state.accumChecksum
    accumChecksum := hashes.crc64 state.accumChecksum dataChecksum }

def verifyAccumChecksum (state : LogChecksum) (dataChecksum accumChecksum : BitVec 64) :
    ObRet × LogChecksum :=
  let verify := hashes.crc64 state.verifyChecksum dataChecksum
  if verify ≠ accumChecksum then (.checksumError, state)
  else (.success, { state with verifyChecksum := verify })

def rollbackAccumChecksum (state : LogChecksum) (currAccumChecksum : BitVec 64) :
    ObRet × LogChecksum :=
  if currAccumChecksum ≠ state.accumChecksum then (.stateNotMatch, state)
  else
    (.success, { state with
      accumChecksum := state.prevAccumChecksum
      prevAccumChecksum := 0 })

end LogChecksum

end SeekDB
