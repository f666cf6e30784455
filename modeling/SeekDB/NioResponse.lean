/-
Writing the response of a request (response_api.rs, and the framing of row_encode.rs).

A response is collected in a batch, which is published to `outbuf` and written out
when it is full.  A call that appends runs in sections under the connection's lock;
between them the batch is published and the call waits until it is written.
-/
import SeekDB.NioConn

namespace SeekDB.Nio

/-- `RESPONSE_BATCH_TARGET`. -/
def responseBatchTarget : Nat := 2 ^ 14 - 3 * 1024

/-- `RESPONSE_ENCODE_HEADROOM`. -/
def responseEncodeHeadroom : Nat := 256

/-! Encoding into a buffer. -/

/-- What is encoded: the length that is planned for the payload, if what was passed
is valid, and what is then written. -/
structure Encoder where
  payloadLen : Option Nat
  payload : Option (List UInt8)
  deriving Repr, DecidableEq

/-- `NIO_FRAME_ERROR`, `NIO_FRAME_NEED_MORE` with the length that is needed, or
`NIO_FRAME_OK` with the length, the buffer and the next sequence number. -/
inductive FrameResult
  | error
  | needMore (framedLen : Nat)
  | ok (framedLen : Nat) (buffer : List UInt8) (nextSeq : UInt8)
  deriving Repr, DecidableEq

/-- The buffer after a payload was written behind the first header and framed. -/
def framedBuffer (payload : List UInt8) (firstSeq : UInt8) (layout : FrameLayout)
    (bufferLen : Nat) : List UInt8 :=
  ByteMemory.segment
    (framePayloadInPlace (ByteMemory.store (fun _ => 0) headerSize payload) payload.length
      firstSeq layout)
    0 bufferLen

/-- `encode_mysql_generated_payload`, as the encoders call it. -/
def encodeMysqlGeneratedPayload (encoder : Encoder) (bufferLen : Nat) (firstSeq : UInt8) :
    FrameResult :=
  match encoder.payloadLen with
  | none => .error
  | some payloadLen =>
    match frameLayout payloadLen with
    | none => .error
    | some layout =>
      if bufferLen < layout.wireLen then .needMore layout.wireLen
      else
        match encoder.payload with
        | none => .error
        | some payload =>
          if payload.length ≠ payloadLen then .error
          else
            .ok layout.wireLen (framedBuffer payload firstSeq layout bufferLen)
              (firstSeq + UInt8.ofNat layout.packetCount)

/-- `encode_result_header_payload`. -/
def encodeResultHeaderPayload (fieldCount : Nat) : List UInt8 :=
  if fieldCount < 251 then [UInt8.ofNat fieldCount]
  else if fieldCount < 0x10000 then
    0xfc :: (List.range 2).map fun i => UInt8.ofNat (fieldCount / 256 ^ i)
  else if fieldCount < 0x1000000 then
    0xfd :: (List.range 3).map fun i => UInt8.ofNat (fieldCount / 256 ^ i)
  else if fieldCount < 2 ^ 64 - 1 then
    0xfe :: (List.range 8).map fun i => UInt8.ofNat (fieldCount / 256 ^ i)
  else [0xfb]

/-- `encode_eof_payload`. -/
def encodeEofPayload (fieldCount : UInt8) (warnings statusFlags : UInt16) : List UInt8 :=
  [fieldCount, warnings.toUInt8, (warnings >>> 8).toUInt8, statusFlags.toUInt8,
    (statusFlags >>> 8).toUInt8]

/-- `encode_metadata_payload_frame`, and the end of `encode_metadata_field_frame`:
one more frame in a buffer that is filled up to the length of `out`. -/
def encodeMetadataPayloadFrame (outLen : Nat) (payload : List UInt8) (out : List UInt8 × UInt8) :
    Option (List UInt8 × UInt8) :=
  match frameLayout payload.length with
  | none => none
  | some layout =>
    if outLen < out.1.length + layout.wireLen then none
    else
      some (out.1 ++ framedBuffer payload out.2 layout layout.wireLen,
        out.2 + UInt8.ofNat layout.packetCount)

/-- `encode_metadata_field_frame`. -/
def encodeMetadataFieldFrame (outLen : Nat) (field : Encoder) (out : List UInt8 × UInt8) :
    Option (List UInt8 × UInt8) :=
  match field.payload with
  | none => none
  | some payload =>
    if some payload.length ≠ field.payloadLen then none
    else encodeMetadataPayloadFrame outLen payload out

/-- The frame of a field, if it can be planned. -/
def Encoder.wireLen (field : Encoder) : Option Nat :=
  (field.payloadLen.bind frameLayout).map (·.wireLen)

/-- A result set's metadata: the number of fields if the header is sent, the fields,
and the payload at the end. -/
structure Metadata where
  resultHeader : Option (List UInt8)
  fields : List Encoder
  eof : List UInt8
  deriving Repr, DecidableEq

/-- The length of the metadata on the wire. -/
def Metadata.wireLen (metadata : Metadata) : Option Nat := do
  let header ← match metadata.resultHeader with
    | none => some 0
    | some payload => (frameLayout payload.length).map (·.wireLen)
  let fields ← metadata.fields.mapM Encoder.wireLen
  let eof ← (frameLayout metadata.eof.length).map (·.wireLen)
  let wireLen := header + fields.sum + eof
  if wireLen < 2 ^ 63 then some wireLen else none

/-- The frame of the result header, if it is sent. -/
def encodeResultHeaderFrame (outLen : Nat) (resultHeader : Option (List UInt8))
    (out : List UInt8 × UInt8) : Option (List UInt8 × UInt8) :=
  match resultHeader with
  | none => some out
  | some payload => encodeMetadataPayloadFrame outLen payload out

/-- `encode_resultset_metadata_run`. -/
def encodeResultsetMetadataRun (metadata : Metadata) (outLen : Nat) (firstSeq : UInt8) :
    Option (List UInt8 × UInt8) := do
  let out ← encodeResultHeaderFrame outLen metadata.resultHeader ([], firstSeq)
  let out ← metadata.fields.foldlM (fun out field => encodeMetadataFieldFrame outLen field out) out
  let out ← encodeMetadataPayloadFrame outLen metadata.eof out
  if out.1.length = outLen then some out else none

namespace Conn

/-! Sections that append. -/

/-- How a round of an append call ends: with the length that was framed, if it
succeeded, or with a batch that has to be published first. -/
inductive AppendRound
  | returns (framedLen : Option Nat) (conn : Conn)
  | publishes
  deriving Repr, DecidableEq

/-- The batch is extended. -/
def extendBatch (conn : Conn) (batch : List UInt8) (nextMysqlSeq : UInt8) : Conn :=
  { conn with response := { conn.response with batch := batch, nextMysqlSeq := nextMysqlSeq } }

/-- A round of `append_encoded_response`. -/
def appendEncodedRound (encoder : Encoder) (conn : Conn) : AppendRound :=
  let batch := conn.response.batch
  let firstSeq := conn.response.nextMysqlSeq
  let headroom := min responseEncodeHeadroom (responseBatchTarget - batch.length)
  if batch ≠ [] ∧ responseBatchTarget ≤ batch.length then .publishes
  else if headroom = 0 then
    .returns none ({ conn with err := true }.clearOutput).markConnectionError
  else
    match encodeMysqlGeneratedPayload encoder headroom firstSeq with
    | .ok actual buffer nextSeq =>
      if 0 < actual ∧ actual ≤ headroom then
        .returns (some actual)
          (conn.extendBatch ((batch ++ buffer).take (batch.length + actual)) nextSeq)
      else .returns none conn
    | .error => .returns none conn
    | .needMore required =>
      if required ≤ headroom then .returns none conn
      else if batch.length ≠ 0 ∧ responseBatchTarget < batch.length + required then .publishes
      else
        match encodeMysqlGeneratedPayload encoder required firstSeq with
        | .ok encoded buffer nextSeq =>
          if encoded ≠ required then .returns none conn
          else .returns (some encoded) (conn.extendBatch (batch ++ buffer) nextSeq)
        | _ => .returns none conn

/-- A round of `append_fixed_response`. -/
def appendFixedRound (payload : List UInt8) (conn : Conn) : AppendRound :=
  let batch := conn.response.batch
  let seq := conn.response.nextMysqlSeq
  let frameLen := headerSize + payload.length
  if batch.length ≠ 0 ∧ responseBatchTarget < batch.length + frameLen then .publishes
  else
    .returns (some frameLen)
      (conn.extendBatch (batch ++ packetHeader payload.length seq ++ payload) (seq + 1))

/-- The end of `nio_response_append_resultset_metadata`, and
`append_single_field_metadata`: the number of packets and the length. -/
def appendMetadata (conn : Conn) (metadata : Metadata) : Option (Nat × Nat) × Conn :=
  match metadata.wireLen with
  | none => (none, conn)
  | some wireLen =>
    if 2 ^ 63 ≤ conn.response.batch.length + wireLen then (none, conn)
    else
      match encodeResultsetMetadataRun metadata wireLen conn.response.nextMysqlSeq with
      | none => (none, conn)
      | some (out, nextSeq) =>
        (some (metadata.fields.length + 1 + metadata.resultHeader.toList.length, wireLen),
          conn.extendBatch (conn.response.batch ++ out) nextSeq)

/-- What `nio_response_append_resultset_metadata` is asked to append.  There are no
fields if the array that was passed is not valid. -/
def metadataOf (includeResultHeader : Int) (fields : Option (List Encoder))
    (eofFieldCount : UInt8) (warnings statusFlags : UInt16) : Option Metadata :=
  match fields with
  | none => none
  | some fields =>
    let eof := encodeEofPayload eofFieldCount warnings statusFlags
    if includeResultHeader = 0 then some ⟨none, fields, eof⟩
    else if includeResultHeader = 1 then
      some ⟨some (encodeResultHeaderPayload fields.length), fields, eof⟩
    else none

/-- `nio_response_append_resultset_metadata`. -/
def nioResponseAppendResultsetMetadata (conn : Conn) (generation : Nat) (includeResultHeader : Int)
    (fields : Option (List Encoder)) (eofFieldCount : UInt8) (warnings statusFlags : UInt16) :
    Option (Nat × Nat) × Conn :=
  if conn.closeNotified || !conn.responseOpen generation then (none, conn)
  else
    match metadataOf includeResultHeader fields eofFieldCount warnings statusFlags with
    | none => (none, conn)
    | some metadata => conn.appendMetadata metadata

/-! Waiting for the transport. -/

/-- What the transport does while a call waits for it: the first flush, the
registration, and the writable events after that. -/
structure DrainIo where
  flush : FlushIo
  registered : Bool
  events : List (FlushIo × Bool)
  deriving Repr, DecidableEq

/-- A call returns with a result, or it waits. -/
inductive Call (α : Type)
  | returns (result : α) (conn : Conn)
  | waits (conn : Conn)
  deriving Repr, DecidableEq

/-- A section behind which the connection may have to be closed. -/
def closeIf (failed : Bool) (conn : Conn) : Conn := if failed then conn.requestClose else conn

/-- `on_writable`, without what it queues. -/
def onWritable (conn : Conn) (io : FlushIo) (registered : Bool) : Conn :=
  let driven := conn.driveWritable none false io registered
  driven.2.closeIf driven.1.failed

/-- The loop in which `drain_blocking_response` waits. -/
def waitDrained (generation : Nat) : List (FlushIo × Bool) → Conn → Call Bool
  | events, conn =>
    if conn.validRequestGeneration generation && !conn.transportIsIdle && !conn.err then
      match events with
      | [] => .waits conn
      | (io, registered) :: rest => waitDrained generation rest (conn.onWritable io registered)
    else .returns (!conn.err && conn.validRequestGeneration generation) conn

/-- `drain_blocking_response`. -/
def drainBlockingResponse (conn : Conn) (generation : Nat) (io : DrainIo) : Call Bool :=
  match conn.flushRequest generation io.flush with
  | (none, conn) => .returns false conn
  | (some true, conn) => .returns (!conn.err) conn
  | (some false, conn) =>
    match conn.armWritable (some generation) io.registered with
    | (outcome, conn) =>
      if outcome.ok then waitDrained generation io.events conn
      else .returns false (conn.closeIf outcome.failed)

/-! Calls. -/

section

variable (deflate : List UInt8 → Option (List UInt8)) (generation : Nat)

/-- The loop of an append call; `drains` says how the transport behaves each time
that a batch is written.  Nothing is returned if `fuel` is not enough. -/
def appendLoop (round : Conn → AppendRound) (drains : Nat → DrainIo) :
    Nat → Conn → Option (Call (Option Nat))
  | 0, _ => none
  | fuel + 1, conn =>
    match round conn with
    | .returns framedLen conn => some (.returns framedLen conn)
    | .publishes =>
      match conn.publishResponseBatch deflate generation false with
      | (false, conn) => some (.returns none conn)
      | (true, conn) =>
        match conn.drainBlockingResponse generation (drains fuel) with
        | .waits conn => some (.waits conn)
        | .returns false conn => some (.returns none conn)
        | .returns true conn =>
          if conn.responseOpen generation then appendLoop round drains fuel conn
          else some (.returns none conn)

/-- `append_encoded_response`. -/
def appendEncodedResponse (encoder : Encoder) (drains : Nat → DrainIo) (fuel : Nat) (conn : Conn) :
    Option (Call (Option Nat)) :=
  if conn.closeNotified || !conn.responseOpen generation then some (.returns none conn)
  else appendLoop deflate generation (appendEncodedRound encoder) drains fuel conn

/-- `append_fixed_response`. -/
def appendFixedResponse (payload : List UInt8) (drains : Nat → DrainIo) (fuel : Nat) (conn : Conn) :
    Option (Call (Option Nat)) :=
  if maxPayload ≤ payload.length || conn.closeNotified || !conn.responseOpen generation then
    some (.returns none conn)
  else appendLoop deflate generation (appendFixedRound payload) drains fuel conn

/-- `nio_response_flush`. -/
def nioResponseFlush (isFinal : Int) (io : DrainIo) (conn : Conn) : Call Bool :=
  if (isFinal ≠ 0 ∧ isFinal ≠ 1) ∨ conn.closeNotified = true then .returns false conn
  else
    match conn.publishResponseBatch deflate generation (decide (isFinal = 1)) with
    | (false, conn) => .returns false conn
    | (true, conn) =>
      if isFinal = 1 then .returns true conn else conn.drainBlockingResponse generation io

end

end Conn

end SeekDB.Nio
