/-
The reading side of a connection (conn.rs, compress.rs, and the reading
functions of pump.rs), without TLS.

A socket is what its next reads return.  The vectors that are kept for their
storage are left out, and memory can always be had.
-/
import SeekDB.NioPacket

namespace SeekDB.Nio

/-- `RETAINED_INPUT_CAPACITY`. -/
def retainedInputCapacity : Nat := 64 * 1024

/-- `COMPRESS_HEADER_SIZE`. -/
def compressHeaderSize : Nat := 7

/-! Buffers. -/

/-- A vector and the position up to which it was consumed: `inbuf` and `rpos`,
`inner_buf` and `inner_rpos`. -/
structure InBuf where
  bytes : List UInt8
  pos : Nat
  deriving Repr, DecidableEq

namespace InBuf

def empty : InBuf := ⟨[], 0⟩

/-- The bytes that were not consumed. -/
def live (buf : InBuf) : List UInt8 := buf.bytes.drop buf.pos

/-- `compact_buf`. -/
def compactBuf (buf : InBuf) : InBuf :=
  let pos := min buf.pos buf.bytes.length
  if pos = buf.bytes.length then empty
  else if retainedInputCapacity ≤ pos ∧ buf.bytes.length / 2 ≤ pos then ⟨buf.bytes.drop pos, 0⟩
  else ⟨buf.bytes, pos⟩

/-- `consume_input`. -/
def consumeInput (buf : InBuf) (amount : Nat) : InBuf :=
  compactBuf ⟨buf.bytes, buf.pos + min amount (buf.bytes.length - buf.pos)⟩

def extend (buf : InBuf) (more : List UInt8) : InBuf := ⟨buf.bytes ++ more, buf.pos⟩

end InBuf

/-! Limits. -/

/-- `packet_limit`. -/
def packetLimit (maxPacketSize : Nat) : Nat := max 1 (min maxPacketSize maxLogicalPayload)

def mysqlWireBudget (payloadLimit : Nat) : Nat :=
  let payloadLimit := min payloadLimit maxLogicalPayload
  payloadLimit + (payloadLimit / maxPayload + 1) * headerSize

def rawInputBudget (maxPacketSize : Nat) (compressed : Bool) : Nat :=
  if compressed then compressHeaderSize + maxPayload
  else mysqlWireBudget (packetLimit maxPacketSize)

/-! Compressed frames. -/

/-- One compressed frame: what it stands for and what is sent. -/
structure CompressedFrame where
  plain : List UInt8
  body : List UInt8
  deflated : Bool
  deriving Repr, DecidableEq

def lenBytes (len : Nat) : List UInt8 :=
  [UInt8.ofNat (len &&& 0xff), UInt8.ofNat ((len >>> 8) &&& 0xff),
    UInt8.ofNat ((len >>> 16) &&& 0xff)]

namespace CompressedFrame

/-- The length that the header gives for what the frame stands for. -/
def uncompLen (frame : CompressedFrame) : Nat := if frame.deflated then frame.plain.length else 0

/-- The bytes of the frame as `frame_into` writes them. -/
def bytes (seq : UInt8) (frame : CompressedFrame) : List UInt8 :=
  lenBytes frame.body.length ++ seq :: lenBytes frame.uncompLen ++ frame.body

end CompressedFrame

/-- Frames, numbered from `seq` on. -/
def compressedStream : UInt8 → List CompressedFrame → List UInt8
  | _, [] => []
  | seq, frame :: rest => frame.bytes seq ++ compressedStream (seq + 1) rest

inductive DeframeStep
  | needMore
  | bad
  | packet (consumed : Nat) (seq : UInt8) (plain : List UInt8)
  deriving Repr, DecidableEq

/-- The decoder: at most so many bytes of output, and how much input was read for
them. -/
def Inflate : Type := List UInt8 → Nat → Option (List UInt8 × Nat)

/-- `deframe_step_limited`. -/
def deframeStepLimited (inflate : Inflate) (buf : List UInt8) (start maxPlain : Nat) :
    DeframeStep :=
  if buf.length < start then .bad
  else
    match buf.drop start with
    | h0 :: h1 :: h2 :: seq :: h4 :: h5 :: h6 :: body =>
      let compLen := headerLen h0 h1 h2
      let uncompLen := headerLen h4 h5 h6
      if compLen = 0 then .bad
      else if maxPlain < (if uncompLen = 0 then compLen else uncompLen) then .bad
      else if body.length < compLen then .needMore
      else if uncompLen = 0 then .packet (compressHeaderSize + compLen) seq (body.take compLen)
      else
        match inflate (body.take compLen) (uncompLen + 1) with
        | none => .bad
        | some (plain, totalIn) =>
          if plain.length ≠ uncompLen ∨ totalIn ≠ compLen then .bad
          else .packet (compressHeaderSize + compLen) seq plain
    | _ => .needMore

/-- The chunks of `frame_into`; `deflate` may give up on a chunk, and what is not
shorter is not used. -/
def packChunks (deflate : List UInt8 → Option (List UInt8)) :
    Nat → List UInt8 → List CompressedFrame
  | 0, _ => []
  | fuel + 1, payload =>
    if payload = [] then []
    else
      let chunk := payload.take maxPayload
      let frame : CompressedFrame :=
        match (deflate chunk).filter fun body => decide (body.length < chunk.length) with
        | some body => ⟨chunk, body, true⟩
        | none => ⟨chunk, chunk, false⟩
      frame :: packChunks deflate fuel (payload.drop maxPayload)

/-- `frame_into`: what is appended, and the next sequence number. -/
def frameInto (deflate : List UInt8 → Option (List UInt8)) (payload : List UInt8) (seq : UInt8) :
    List UInt8 × UInt8 :=
  let frames := packChunks deflate payload.length payload
  (compressedStream seq frames, seq + UInt8.ofNat frames.length)

/-! The socket. -/

inductive ReadResult
  /-- No bytes at all are the end of the stream. -/
  | data (bytes : List UInt8)
  | wouldBlock
  | interrupted
  | failed
  deriving Repr, DecidableEq

/-- What a read of at most `readLen` bytes returns, and what is left for the next
one.  Without anything left a read would block. -/
def readRaw (readLen : Nat) : List ReadResult → ReadResult × List ReadResult
  | [] => (.wouldBlock, [])
  | .data [] :: rest => (.data [], .data [] :: rest)
  | .data bytes :: rest =>
    if bytes.length ≤ readLen then (.data bytes, rest)
    else (.data (bytes.take readLen), .data (bytes.drop readLen) :: rest)
  | result :: rest => (result, rest)

/-- The reading side of `ConnInner`, with the flags and limits of `Conn` that it
uses. -/
structure Input where
  socket : List ReadResult
  peerClosed : Bool
  maxPacketSize : Nat
  inbuf : InBuf
  drainStoppedAtBudget : Bool
  innerBuf : InBuf
  compressedWireBytes : Nat
  nextCompSeq : UInt8
  reqCompressed : Bool
  deriving Repr, DecidableEq

namespace Input

/-- A new connection. -/
def new (maxPacketSize : Nat) (socket : List ReadResult) : Input where
  socket := socket
  peerClosed := false
  maxPacketSize := maxPacketSize
  inbuf := .empty
  drainStoppedAtBudget := false
  innerBuf := .empty
  compressedWireBytes := 0
  nextCompSeq := 0
  reqCompressed := false

/-- The loop of `drain_socket`; `false` stands for an error.  Every round takes a
result or a part of one off the socket. -/
def drainLoop (budget : Nat) : Nat → Input → Bool × Input
  | 0, input => (true, input)
  | fuel + 1, input =>
    let readLen := min (16 * 1024) (budget - (input.inbuf.bytes.length - input.inbuf.pos))
    if readLen = 0 then (true, { input with drainStoppedAtBudget := true })
    else
      match readRaw readLen input.socket with
      | (.data [], socket) => (true, { input with socket := socket, peerClosed := true })
      | (.data bytes, socket) =>
        drainLoop budget fuel { input with socket := socket, inbuf := input.inbuf.extend bytes }
      | (.wouldBlock, socket) => (true, { input with socket := socket })
      | (.interrupted, socket) => drainLoop budget fuel { input with socket := socket }
      | (.failed, socket) => (false, { input with socket := socket })

/-- A bound for the reads until the socket is empty. -/
def socketSize (socket : List ReadResult) : Nat :=
  (socket.map fun result => match result with
    | .data bytes => bytes.length + 1
    | _ => 1).sum

def drainSocket (input : Input) (compressed : Bool) : Bool × Input :=
  drainLoop (rawInputBudget input.maxPacketSize compressed) (socketSize input.socket + 1)
    { input with inbuf := input.inbuf.compactBuf, drainStoppedAtBudget := false }

structure DecodedPacket where
  consumed : Nat
  seq : UInt8
  wireBytes : Nat
  body : List UInt8
  deriving Repr, DecidableEq

/-- `assemble_for_conn`. -/
def assembleForConn (maxPacketSize : Nat) (buf : InBuf) : Except Unit (Option DecodedPacket) :=
  let limit := packetLimit maxPacketSize
  match assembleCommandLimited buf.bytes buf.pos limit with
  | .needMore =>
    if mysqlWireBudget limit ≤ buf.bytes.length - buf.pos then .error () else .ok none
  | .bad => .error ()
  | .packet consumed lastSeq body => .ok (some ⟨consumed, lastSeq, consumed, body⟩)

/-- `first_sequence_mismatch`, when a first sequence number is expected. -/
def firstSequenceMismatch (buf : InBuf) (expected : Option UInt8) : Bool :=
  match expected, buf.bytes.drop buf.pos with
  | some expected, _ :: _ :: _ :: seq :: _ => seq != expected
  | _, _ => false

/-- `compact_raw_input` and `compact_inner_input`. -/
def compacted (input : Input) : Input :=
  { input with
    inbuf := input.inbuf.compactBuf
    innerBuf := input.innerBuf.compactBuf }

/-- `deframe_compress_one`. -/
def deframeCompressOne (inflate : Inflate) (input : Input) : Except Unit Bool × Input :=
  let input := input.compacted
  let innerBudget := mysqlWireBudget (packetLimit input.maxPacketSize) + maxPayload
  let innerLive := input.innerBuf.bytes.length - input.innerBuf.pos
  if innerBudget < innerLive then (.error (), input)
  else
    match deframeStepLimited inflate input.inbuf.bytes input.inbuf.pos
        (innerBudget - innerLive) with
    | .needMore =>
      if rawInputBudget input.maxPacketSize true ≤ input.inbuf.bytes.length - input.inbuf.pos then
        (.error (), input)
      else (.ok false, input)
    | .bad => (.error (), input)
    | .packet consumed seq plain =>
      if seq ≠ input.nextCompSeq then (.error (), input)
      else if 2 ^ 64 ≤ input.compressedWireBytes + consumed then (.error (), input)
      else
        (.ok true,
          { input with
            innerBuf := input.innerBuf.extend plain
            nextCompSeq := seq + 1
            inbuf := input.inbuf.consumeInput consumed
            compressedWireBytes := input.compressedWireBytes + consumed })

/-- How a round of the loop of `assemble_compressed_for_conn` ends. -/
inductive AssembleRound
  | returns (result : Except Unit (Option DecodedPacket)) (input : Input)
  | goesOn (input : Input)

/-- The end of a round that found no whole frame. -/
def assembleDrained (before : Nat) : Bool × Input → AssembleRound
  | (false, input) => .returns (.error ()) input
  | (true, input) =>
    if input.inbuf.bytes.length - input.inbuf.pos = before then .returns (.ok none) input
    else .goesOn input

/-- One round of the loop. -/
def assembleRound (inflate : Inflate) (expected : Option UInt8) (input : Input) :
    AssembleRound :=
  if firstSequenceMismatch input.innerBuf expected then .returns (.error ()) input
  else
    match assembleForConn input.maxPacketSize input.innerBuf with
    | .error _ => .returns (.error ()) input
    | .ok (some packet) => .returns (.ok (some packet)) input
    | .ok none =>
      match deframeCompressOne inflate input with
      | (.error _, input) => .returns (.error ()) input
      | (.ok true, input) => .goesOn input
      | (.ok false, input) =>
        assembleDrained (input.inbuf.bytes.length - input.inbuf.pos) (input.drainSocket true)

/-- The loop of `assemble_compressed_for_conn`.  Every round takes a frame out of
`inbuf` or brings bytes into it. -/
def assembleCompressedLoop (inflate : Inflate) (expected : Option UInt8) :
    Nat → Input → Except Unit (Option DecodedPacket) × Input
  | 0, input => (.ok none, input)
  | fuel + 1, input =>
    match assembleRound inflate expected input with
    | .returns result input => (result, input)
    | .goesOn input => assembleCompressedLoop inflate expected fuel input

def assembleCompressedForConn (inflate : Inflate) (input : Input) (expected : Option UInt8) :
    Except Unit (Option DecodedPacket) × Input :=
  assembleCompressedLoop inflate expected
    (2 * socketSize input.socket + input.inbuf.bytes.length + 1) input

/-- `WireProtocol::read_packet_locked`; the protocol is plain or compressed. -/
def readPacketLocked (inflate : Inflate) (compressed : Bool) (input : Input)
    (expected : Option UInt8) : Except Unit (Option DecodedPacket) × Input :=
  if compressed then
    match input.assembleCompressedForConn inflate expected with
    | (.error _, input) => (.error (), input)
    | (.ok none, input) => (.ok none, input)
    | (.ok (some packet), input) =>
      (.ok (some { packet with wireBytes := input.compressedWireBytes }),
        { input with
          innerBuf := input.innerBuf.consumeInput packet.consumed
          compressedWireBytes := 0
          reqCompressed := true })
  else
    match input.drainSocket false with
    | (false, input) => (.error (), input)
    | (true, input) =>
      if firstSequenceMismatch input.inbuf expected then (.error (), input)
      else
        match assembleForConn input.maxPacketSize input.inbuf with
        | .error _ => (.error (), input)
        | .ok none => (.ok none, input)
        | .ok (some packet) =>
          (.ok (some packet),
            { input with
              inbuf := input.inbuf.consumeInput packet.consumed
              reqCompressed := false })

end Input

end SeekDB.Nio
