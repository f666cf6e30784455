/-
A connection and its request (conn.rs, request.rs, and the sections of reactor.rs
and response_api.rs that run under the connection's lock).

Every function here is one locked section.  Of a TLS session only the ciphertext
that waits to be written is modelled; wake-ups, storage that is kept for reuse,
bodies that are read in the middle of a request and the login are left out.
-/
import SeekDB.NioInput

namespace SeekDB.Nio

inductive ReadState
  | login
  | command
  | changeUserAuth (expectedSeq : UInt8)
  deriving Repr, DecidableEq

inductive AuthOutcome
  | noChange
  | authOk
  | authSwitchSent (expectedSeq : UInt8)
  deriving Repr, DecidableEq

structure RequestContinuation where
  generation : Nat
  authOutcome : AuthOutcome
  deriving Repr, DecidableEq

inductive FinalResponseState
  | idle
  | staged (generation : Nat)
  | prepared (continuation : RequestContinuation)
  | committed (continuation : RequestContinuation)
  | completionQueued (continuation : RequestContinuation)
  deriving Repr, DecidableEq

structure ResponseWriter where
  activeGeneration : Nat
  nextMysqlSeq : UInt8
  batch : List UInt8
  deriving Repr, DecidableEq

namespace ResponseWriter

def new : ResponseWriter := ⟨0, 0, []⟩

def begin (writer : ResponseWriter) (generation : Nat) (nextMysqlSeq : UInt8) :
    Bool × ResponseWriter :=
  if generation = 0 ∨ writer.activeGeneration ≠ 0 ∨ writer.batch ≠ [] then (false, writer)
  else (true, { writer with activeGeneration := generation, nextMysqlSeq := nextMysqlSeq })

def isActive (writer : ResponseWriter) (generation : Nat) : Bool :=
  generation != 0 && writer.activeGeneration == generation

def clearBatch (writer : ResponseWriter) : ResponseWriter := { writer with batch := [] }

def finish (writer : ResponseWriter) (generation : Nat) : Bool × ResponseWriter :=
  (writer.isActive generation, new)

end ResponseWriter

structure ActiveRequestBody where
  generation : Nat
  body : List UInt8
  callbackActive : Bool
  workerReleased : Bool
  deriving Repr, DecidableEq

structure FinishOutcome where
  bufferedInput : Bool
  readableEdge : Bool
  deriving Repr, DecidableEq

/-- `Conn` with its `ConnInner`.  `requestBusy` and `requestReadReady` are the
bits of `request_state`. -/
structure Conn where
  /-- `CLIENT_COMPRESS` in `transport_caps`. -/
  negotiated : Bool
  input : Input
  outbuf : InBuf
  /-- What the socket, or the TLS session, has taken out of `outbuf` so far. -/
  sent : List UInt8
  /-- The bytes that the TLS session wants to write, if there is a session. -/
  tls : Option Nat
  wantWrite : Bool
  finalResponse : FinalResponseState
  response : ResponseWriter
  readState : ReadState
  activeRequestBody : Option ActiveRequestBody
  err : Bool
  needShutdown : Bool
  closeRequested : Bool
  closeNotified : Bool
  requestBusy : Bool
  requestReadReady : Bool
  requestGeneration : Nat
  deriving Repr, DecidableEq

namespace Conn

/-- `make_conn`. -/
def new (maxPacketSize : Nat) (socket : List ReadResult) : Conn where
  negotiated := false
  input := Input.new maxPacketSize socket
  outbuf := .empty
  sent := []
  tls := none
  wantWrite := false
  finalResponse := .idle
  response := .new
  readState := .login
  activeRequestBody := none
  err := false
  needShutdown := false
  closeRequested := false
  closeNotified := false
  requestBusy := false
  requestReadReady := false
  requestGeneration := 0

variable (conn : Conn)

/-! Output. -/

def outputIsEmpty : Bool := decide (conn.outbuf.bytes.length ≤ conn.outbuf.pos)

def transportIsIdle : Bool := conn.outputIsEmpty && conn.tls.all (· == 0)

def clearTransportOutput : Conn := { conn with outbuf := .empty }

def clearOutput : Conn :=
  { conn.clearTransportOutput with response := conn.response.clearBatch }

/-- `request_close`; the token is queued once. -/
def requestClose : Conn := { conn with closeRequested := true }

/-- `mark_connection_error`. -/
def markConnectionError : Conn := { conn with err := true }.requestClose

/-- What a write to the socket returns. -/
inductive WriteResult
  | wrote (n : Nat)
  | wouldBlock
  | interrupted
  | failed
  deriving Repr, DecidableEq

/-- How the transport takes what is flushed: the results of the writes to a plain
socket; or what a TLS session accepts, what it then still wants to write, and
whether it failed. -/
structure FlushIo where
  writes : List WriteResult
  accepted : Nat
  wanted : Nat
  fatal : Bool
  deriving Repr, DecidableEq

def failFlushLocked : Bool × Conn :=
  (true, ({ conn with err := true }.clearOutput).requestClose)

/-- `n` bytes of the output are taken. -/
def takeOutput (n : Nat) : Conn :=
  { conn with
    sent := conn.sent ++ conn.outbuf.live.take n
    outbuf := { conn.outbuf with pos := conn.outbuf.pos + n } }

/-- The loop of `flush_plain_locked`; `false` stands for an error.  With no result
left a write would block. -/
def flushPlainLoop : List WriteResult → Conn → Bool × Conn
  | [], conn => (true, conn)
  | result :: rest, conn =>
    if conn.outputIsEmpty then (true, conn)
    else
      match result with
      | .wrote 0 => (true, conn)
      | .wrote n => flushPlainLoop rest (conn.takeOutput n)
      | .wouldBlock => (true, conn)
      | .interrupted => flushPlainLoop rest conn
      | .failed => (false, conn)

def flushPlainLocked (writes : List WriteResult) : Bool × Conn :=
  match flushPlainLoop writes conn with
  | (false, conn) => conn.failFlushLocked
  | (true, conn) =>
    if conn.outputIsEmpty then (true, conn.clearTransportOutput) else (false, conn)

def flushTlsLocked (io : FlushIo) : Bool × Conn :=
  let taken := { conn.takeOutput io.accepted with tls := some io.wanted }
  if io.fatal then taken.failFlushLocked
  else
    let flushed := if taken.outputIsEmpty then taken.clearTransportOutput else taken
    (flushed.transportIsIdle, flushed)

def flushBufferLocked (io : FlushIo) : Bool × Conn :=
  if conn.tls.isSome then conn.flushTlsLocked io else conn.flushPlainLocked io.writes

/-! Requests. -/

/-- `valid_request_generation`. -/
def validRequestGeneration (generation : Nat) : Bool :=
  generation != 0 && conn.requestBusy && conn.requestGeneration == generation

def installActiveRequestBody (generation : Nat) (nextMysqlSeq : UInt8) (body : List UInt8) :
    Bool × Conn :=
  if !conn.validRequestGeneration generation || conn.activeRequestBody.isSome then (false, conn)
  else
    match conn.response.begin generation nextMysqlSeq with
    | (false, _) => (false, conn)
    | (true, response) =>
      (true,
        { conn with
          response := response
          activeRequestBody := some ⟨generation, body, true, false⟩ })

/-- `abort_request`. -/
def abortRequest : Conn := { conn with requestBusy := false, requestReadReady := false }

def takeFinalCompletionLocked : Option Nat × Conn :=
  if conn.transportIsIdle then
    match conn.finalResponse with
    | .committed continuation =>
      (some continuation.generation, { conn with finalResponse := .completionQueued continuation })
    | _ => (none, conn)
  else (none, conn)

/-- The next `read_state`. -/
def nextRead (outcome : AuthOutcome) : ReadState :=
  match outcome with
  | .noChange => conn.readState
  | .authOk => .command
  | .authSwitchSent expectedSeq => .changeUserAuth expectedSeq

/-- Whether input is left that needs no new readable event. -/
def bufferedInput : Bool :=
  decide (conn.input.inbuf.pos < conn.input.inbuf.bytes.length) ||
    decide (conn.input.innerBuf.pos < conn.input.innerBuf.bytes.length) ||
    conn.input.drainStoppedAtBudget

def finishWorkerRequestLocked (generation : Nat) : Option FinishOutcome × Conn :=
  match conn.finalResponse with
  | .completionQueued continuation =>
    if continuation.generation = generation ∧ conn.requestBusy = true ∧
        conn.requestGeneration = generation then
      let written := conn.response.finish generation
      let conn := { conn with response := written.2 }
      let conn := if written.1 then conn else { conn with err := true }.clearOutput
      let nextRead := conn.nextRead continuation.authOutcome
      let conn := { conn with finalResponse := .idle, readState := nextRead }
      let conn := match nextRead with
        | .changeUserAuth _ => conn
        | _ => { conn with input := { conn.input with nextCompSeq := 0 } }
      (some ⟨conn.bufferedInput, conn.requestReadReady⟩, conn.abortRequest)
    else (none, conn)
  | _ => (none, conn)

/-- `take_final_completion_locked` and `finish_worker_request_locked` in one
section: the outcome, or the generation whose completion is left to do. -/
def completeLocked : Option FinishOutcome × Option Nat × Conn :=
  match conn.takeFinalCompletionLocked with
  | (none, conn) => (none, none, conn)
  | (some generation, conn) =>
    match conn.finishWorkerRequestLocked generation with
    | (some finished, conn) => (some finished, none, conn)
    | (none, conn) => (none, some generation, conn)

/-- Whether the request can still add to its response. -/
def responseOpen (generation : Nat) : Bool :=
  conn.validRequestGeneration generation && conn.response.isActive generation &&
    conn.finalResponse == .idle && !conn.err

/-- `append_response_locked`. -/
def appendResponseLocked (deflate : List UInt8 → Option (List UInt8)) (bytes : List UInt8) :
    Conn :=
  let outbuf := conn.outbuf.compactBuf
  if conn.input.reqCompressed then
    let framed := frameInto deflate bytes conn.input.nextCompSeq
    { conn with
      outbuf := outbuf.extend framed.1
      input := { conn.input with nextCompSeq := framed.2 } }
  else { conn with outbuf := outbuf.extend bytes }

/-- How `publish_response_batch` moves the batch to `outbuf`. -/
def moveBatch (deflate : List UInt8 → Option (List UInt8)) : Conn :=
  let batch := conn.response.batch
  let taken := { conn with response := { conn.response with batch := [] } }
  if batch = [] then taken
  else if !conn.input.reqCompressed && conn.outputIsEmpty then
    { taken with outbuf := ⟨batch, 0⟩ }
  else taken.appendResponseLocked deflate batch

/-- `publish_response_batch`. -/
def publishResponseBatch (deflate : List UInt8 → Option (List UInt8)) (generation : Nat)
    (isFinal : Bool) : Bool × Conn :=
  if conn.responseOpen generation then
    let moved := conn.moveBatch deflate
    (true, if isFinal then { moved with finalResponse := .staged generation } else moved)
  else (false, conn)

/-- `flush_request`. -/
def flushRequest (generation : Nat) (io : FlushIo) : Option Bool × Conn :=
  if conn.validRequestGeneration generation then
    let flushed := conn.flushBufferLocked io
    (some flushed.1, flushed.2)
  else (none, conn)

/-- What `arm_writable` did: whether the caller may wait, and the generation that
was completed by a failure. -/
structure ArmOutcome where
  ok : Bool
  asyncCompleted : Option Nat
  failed : Bool
  deriving Repr, DecidableEq

/-- The section of `arm_writable`; `registered` is the result of `reregister`. -/
def armWritable (generation : Option Nat) (registered : Bool) : ArmOutcome × Conn :=
  if generation.any (fun generation => !conn.validRequestGeneration generation) then
    (⟨false, none, false⟩, conn)
  else if conn.err then
    let taken := conn.clearOutput.takeFinalCompletionLocked
    (⟨false, taken.1, true⟩, taken.2)
  else if conn.wantWrite then (⟨true, none, false⟩, conn)
  else if registered then (⟨true, none, false⟩, { conn with wantWrite := true })
  else
    let taken := ({ conn with err := true }.clearOutput).takeFinalCompletionLocked
    (⟨false, taken.1, true⟩, taken.2)

/-- What `drive_writable` still has to do behind its section. -/
structure DriveOutcome where
  finished : Option FinishOutcome
  deferredCompletion : Option Nat
  failed : Bool
  deriving Repr, DecidableEq

/-- Whether a commit that was taken from the queue has nothing to drive. -/
def skipsCommit (generation : Nat) : Bool :=
  !conn.validRequestGeneration generation ||
    (match conn.finalResponse with
      | .committed continuation => continuation.generation != generation
      | _ => true) ||
    conn.outputIsEmpty

/-- The registration of `drive_writable` after its flush. -/
def rearm (drained armOnBlock registered : Bool) : Conn :=
  if drained && conn.wantWrite then
    if !conn.err && !registered then ({ conn with wantWrite := false, err := true }).clearOutput
    else { conn with wantWrite := false }
  else if !drained && armOnBlock && !conn.wantWrite then
    if !conn.err && registered then { conn with wantWrite := true }
    else ({ conn with wantWrite := false, err := true }).clearOutput
  else conn

/-- The section of `drive_writable`. -/
def driveWritable (expectedCommit : Option Nat) (armOnBlock : Bool) (io : FlushIo)
    (registered : Bool) : DriveOutcome × Conn :=
  if expectedCommit.any conn.skipsCommit then (⟨none, none, false⟩, conn)
  else
    let flushed := conn.flushBufferLocked io
    let armed := flushed.2.rearm flushed.1 armOnBlock registered
    let completed := armed.completeLocked
    (⟨completed.1, completed.2.1, armed.err⟩, completed.2.2)

end Conn

end SeekDB.Nio
