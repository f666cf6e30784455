/-
The stream of a response.

What was sent, what waits in `outbuf` and what is still in the batch make up one
stream.  Flushing and publishing move bytes along it, and only an append that
succeeds adds to it.
-/
import SeekDB.Execution
import SeekDB.NioReading
import SeekDB.NioResponse

namespace SeekDB.Nio

open List Option

variable {next out : List UInt8 × UInt8} {payload : List UInt8} {after middle : Conn}
  {left right chunks : List (List UInt8)} {outLen fuel : Nat}

/-! Packets. -/

/-- Packets, numbered from `seq` on. -/
def numbered : UInt8 → List (List UInt8) → List UInt8
  | _, [] => []
  | seq, chunk :: rest => packetHeader chunk.length seq ++ chunk ++ numbered (seq + 1) rest

/-- A payload cut into `full` full packets and the last one. -/
def packetsFrom : Nat → List UInt8 → List (List UInt8)
  | 0, payload => [payload]
  | full + 1, payload => payload.take maxPayload :: packetsFrom full (payload.drop maxPayload)

/-- The packets of a payload. -/
def packets (payload : List UInt8) : List (List UInt8) :=
  packetsFrom (payload.length / maxPayload) payload

theorem length_packetsFrom (full : Nat) (payload : List UInt8) :
    (packetsFrom full payload).length = full + 1 := by
  induction full generalizing payload with
  | zero => rfl
  | succ full ih => rw [packetsFrom, length_cons, ih]

theorem numbered_packetsFrom {full : Nat} (seq : UInt8)
    (hfull : payload.length / maxPayload = full) :
    numbered seq (packetsFrom full payload) = framesFrom full seq payload := by
  induction full generalizing seq payload with
  | zero => simp [packetsFrom, framesFrom, numbered]
  | succ full ih =>
    obtain ⟨hlong, hrest⟩ := div_eq_succ hfull
    rw [packetsFrom, framesFrom, numbered, ih (seq + 1) hrest, length_take, Nat.min_eq_left hlong]

theorem seq_add (seq : UInt8) (m n : Nat) :
    seq + UInt8.ofNat m + UInt8.ofNat n = seq + UInt8.ofNat (m + n) := by
  rw [UInt8.ofNat_add, UInt8.add_assoc]

theorem numbered_append (seq : UInt8) (left right : List (List UInt8)) :
    numbered seq (left ++ right) =
      numbered seq left ++ numbered (seq + UInt8.ofNat left.length) right := by
  induction left generalizing seq with
  | nil => simp [numbered]
  | cons chunk left ih =>
    have hseq : seq + 1 + UInt8.ofNat left.length = seq + UInt8.ofNat (chunk :: left).length := by
      rw [length_cons, Nat.add_comm, ← seq_add]
      rfl
    rw [cons_append, numbered, numbered, ih, hseq]
    simp only [append_assoc]

/-! What happens to the stream. -/

namespace Conn

/-- The stream of the response. -/
def wire (conn : Conn) : List UInt8 := conn.sent ++ conn.outbuf.live ++ conn.response.batch

/-- Unless the connection has failed, there is no commit that a section could
complete. -/
def Quiet (conn : Conn) : Prop :=
  conn.err = true ∨ ∀ continuation, conn.finalResponse ≠ .committed continuation

/-- Bytes only move along the stream, and the batch stays. -/
structure Keeps (conn after : Conn) : Prop where
  output : after.sent ++ after.outbuf.live = conn.sent ++ conn.outbuf.live
  response : after.response = conn.response
  finalResponse : after.finalResponse = conn.finalResponse
  input : after.input = conn.input
  err : after.err = conn.err

theorem Keeps.refl (conn : Conn) : Keeps conn conn := ⟨rfl, rfl, rfl, rfl, rfl⟩

variable {conn : Conn}

theorem Keeps.trans (h : Keeps conn middle) (h' : Keeps middle after) : Keeps conn after :=
  ⟨h'.output.trans h.output, h'.response.trans h.response,
    h'.finalResponse.trans h.finalResponse, h'.input.trans h.input, h'.err.trans h.err⟩

/-- Unless the connection fails, bytes only move along the stream. -/
def Flushes (conn after : Conn) : Prop := after.err = true ∨ Keeps conn after

theorem Flushes.trans (h : Flushes conn middle) (h' : Flushes middle after) :
    Flushes conn after := by
  rcases h' with herr | hkeeps
  · exact .inl herr
  · rcases h with herr | hkeeps'
    · exact .inl (hkeeps.err.trans herr)
    · exact .inr (hkeeps'.trans hkeeps)

theorem Flushes.keeps (h : Flushes conn after) (herr : after.err = false) :
    Keeps conn after :=
  h.resolve_left fun htrue => by rw [herr] at htrue; exact Bool.noConfusion htrue

theorem Flushes.quiet (h : Flushes conn after) (hquiet : conn.Quiet) :
    after.Quiet := by
  rcases h with herr | hkeeps
  · exact .inl herr
  · rw [Quiet, hkeeps.err, hkeeps.finalResponse]
    exact hquiet

section

variable {conn : Conn}

theorem keeps_takeOutput (n : Nat) : Keeps conn (conn.takeOutput n) where
  output := by
    simp only [takeOutput, InBuf.live, append_assoc, ← drop_drop, take_append_drop]
  response := rfl
  finalResponse := rfl
  input := rfl
  err := rfl

theorem live_of_outputIsEmpty (hempty : conn.outputIsEmpty = true) : conn.outbuf.live = [] :=
  drop_of_length_le (of_decide_eq_true hempty)

theorem keeps_clearTransportOutput (hempty : conn.outputIsEmpty = true) :
    Keeps conn conn.clearTransportOutput where
  output := by rw [live_of_outputIsEmpty hempty]; rfl
  response := rfl
  finalResponse := rfl
  input := rfl
  err := rfl

theorem keeps_flushPlainLoop (writes : List WriteResult) (conn : Conn) :
    Keeps conn (flushPlainLoop writes conn).2 := by
  induction writes generalizing conn with
  | nil => exact .refl conn
  | cons result rest ih =>
    unfold flushPlainLoop
    split
    · exact .refl conn
    cases result with
    | wrote n =>
      cases n with
      | zero => exact .refl conn
      | succ => exact (keeps_takeOutput _).trans (ih _)
    | wouldBlock | failed => exact .refl conn
    | interrupted => exact ih conn

theorem flushes_flushPlainLocked (writes : List WriteResult) :
    Flushes conn (conn.flushPlainLocked writes).2 := by
  have hloop := keeps_flushPlainLoop writes conn
  unfold flushPlainLocked
  split
  · exact .inl rfl
  rename_i after heq
  rw [heq] at hloop
  split
  · rename_i hempty
    exact .inr (hloop.trans (keeps_clearTransportOutput hempty))
  · exact .inr hloop

theorem keeps_setTls (h : Keeps conn after) (tls : Option Nat) :
    Keeps conn { after with tls := tls } :=
  { h with }

theorem keeps_setWantWrite (h : Keeps conn after) (wantWrite : Bool) :
    Keeps conn { after with wantWrite := wantWrite } :=
  { h with }

theorem flushes_flushTlsLocked (io : FlushIo) : Flushes conn (conn.flushTlsLocked io).2 := by
  have htaken := keeps_setTls (@keeps_takeOutput conn io.accepted) (some io.wanted)
  unfold flushTlsLocked
  simp only
  split
  · exact .inl rfl
  split
  · rename_i hempty
    exact .inr (htaken.trans (keeps_clearTransportOutput hempty))
  · exact .inr htaken

theorem flushes_flushBufferLocked (io : FlushIo) : Flushes conn (conn.flushBufferLocked io).2 := by
  unfold flushBufferLocked
  split
  · exact flushes_flushTlsLocked io
  · exact flushes_flushPlainLocked io.writes

theorem flushes_flushRequest (generation : Nat) (io : FlushIo) :
    Flushes conn (conn.flushRequest generation io).2 := by
  unfold flushRequest
  split
  · exact flushes_flushBufferLocked io
  · exact .inr (.refl conn)

theorem err_takeFinalCompletionLocked : conn.takeFinalCompletionLocked.2.err = conn.err := by
  unfold takeFinalCompletionLocked
  split
  · split <;> rfl
  · rfl

theorem flushes_armWritable (generation : Option Nat) (registered : Bool) :
    Flushes conn (conn.armWritable generation registered).2 := by
  unfold armWritable
  split
  · exact .inr (.refl conn)
  split
  · rename_i herr
    exact .inl (err_takeFinalCompletionLocked.trans herr)
  split
  · exact .inr (.refl conn)
  · split
    · exact .inr (keeps_setWantWrite (.refl conn) true)
    · exact .inl err_takeFinalCompletionLocked

theorem flushes_rearm (drained armOnBlock registered : Bool) :
    Flushes conn (conn.rearm drained armOnBlock registered) := by
  unfold rearm
  split
  · split
    · exact .inl rfl
    · exact .inr (keeps_setWantWrite (.refl conn) false)
  split
  · split
    · exact .inr (keeps_setWantWrite (.refl conn) true)
    · exact .inl rfl
  · exact .inr (.refl conn)

theorem completeLocked_of_uncommitted
    (huncommitted : ∀ continuation, conn.finalResponse ≠ .committed continuation) :
    conn.completeLocked = (none, none, conn) := by
  have htake : conn.takeFinalCompletionLocked = (none, conn) := by
    unfold takeFinalCompletionLocked
    split
    · split
      · rename_i continuation heq
        exact absurd heq (huncommitted continuation)
      · rfl
    · rfl
  rw [completeLocked, htake]

theorem err_finishWorkerRequestLocked (herr : conn.err = true) (generation : Nat) :
    (conn.finishWorkerRequestLocked generation).2.err = true := by
  unfold finishWorkerRequestLocked
  split
  · split
    · simp only
      split <;> split <;> first | exact herr | rfl
    · exact herr
  · exact herr

/-- A section that fails has set `err`, and it stays. -/
theorem err_completeLocked (herr : conn.err = true) : conn.completeLocked.2.2.err = true := by
  have htaken := @err_takeFinalCompletionLocked conn
  unfold completeLocked
  generalize conn.takeFinalCompletionLocked = taken at htaken
  obtain ⟨generation, taken⟩ := taken
  rw [herr] at htaken
  cases generation with
  | none => exact htaken
  | some generation =>
    have hfinished := err_finishWorkerRequestLocked htaken generation
    simp only
    generalize taken.finishWorkerRequestLocked generation = finished at hfinished
    obtain ⟨outcome, finished⟩ := finished
    cases outcome <;> exact hfinished

theorem flushes_completeLocked (hquiet : conn.Quiet) : Flushes conn conn.completeLocked.2.2 := by
  rcases hquiet with herr | huncommitted
  · exact .inl (err_completeLocked herr)
  · rw [completeLocked_of_uncommitted huncommitted]
    exact .inr (.refl conn)

theorem flushes_driveWritable (hquiet : conn.Quiet) (io : FlushIo) (armOnBlock registered : Bool) :
    Flushes conn (conn.driveWritable none armOnBlock io registered).2 := by
  have harmed : Flushes conn
      ((conn.flushBufferLocked io).2.rearm (conn.flushBufferLocked io).1 armOnBlock registered) :=
    (flushes_flushBufferLocked io).trans (flushes_rearm _ _ _)
  exact harmed.trans (flushes_completeLocked (harmed.quiet hquiet))

theorem flushes_closeIf (h : Flushes conn after) (failed : Bool) :
    Flushes conn (after.closeIf failed) := by
  unfold closeIf
  split
  · exact h.imp id fun hkeeps =>
      { hkeeps with }
  · exact h

theorem flushes_onWritable (hquiet : conn.Quiet) (io : FlushIo) (registered : Bool) :
    Flushes conn (conn.onWritable io registered) :=
  flushes_closeIf (flushes_driveWritable hquiet io false registered) _

end

/-! Waiting. -/

/-- What a call that writes the output out does: it returns whether it succeeded,
or it waits for a transport that takes nothing more. -/
inductive Drains (conn : Conn) : Call Bool → Prop
  | done {after : Conn} (hkeeps : Keeps conn after) (herr : after.err = false) :
      Drains conn (.returns true after)
  | failed {after : Conn} (hflushes : Flushes conn after) : Drains conn (.returns false after)
  | waits {after : Conn} (hkeeps : Keeps conn after) (hblocked : after.transportIsIdle = false)
      (herr : after.err = false) : Drains conn (.waits after)

theorem Drains.of_flushes {call : Call Bool} (h : Flushes conn middle)
    (hdrains : Drains middle call) : Drains conn call := by
  cases hdrains with
  | done hkeeps herr => exact .done ((h.keeps (hkeeps.err ▸ herr)).trans hkeeps) herr
  | failed hflushes => exact .failed (h.trans hflushes)
  | waits hkeeps hblocked herr =>
    exact .waits ((h.keeps (hkeeps.err ▸ herr)).trans hkeeps) hblocked herr

/-- Whether a call still waits. -/
def isWaiting (generation : Nat) (conn : Conn) : Bool :=
  conn.validRequestGeneration generation && !conn.transportIsIdle && !conn.err

theorem waitDrained_of_not_waiting {generation : Nat}
    (hdone : conn.isWaiting generation = false) (events : List (FlushIo × Bool)) :
    Drains conn (waitDrained generation events conn) := by
  unfold isWaiting at hdone
  unfold waitDrained
  simp only [hdone, Bool.false_eq_true, if_false]
  cases hok : !conn.err && conn.validRequestGeneration generation with
  | false => exact .failed (.inr (.refl conn))
  | true =>
    simp only [Bool.and_eq_true, Bool.not_eq_true'] at hok
    exact .done (.refl conn) hok.1

theorem waitDrained_drains (generation : Nat) (events : List (FlushIo × Bool))
    (hquiet : conn.Quiet) : Drains conn (waitDrained generation events conn) := by
  induction events generalizing conn with
  | nil =>
    cases hwaiting : conn.isWaiting generation with
    | false => exact waitDrained_of_not_waiting hwaiting []
    | true =>
      unfold isWaiting at hwaiting
      unfold waitDrained
      simp only [hwaiting, if_true]
      simp only [Bool.and_eq_true, Bool.not_eq_true'] at hwaiting
      exact .waits (.refl conn) hwaiting.1.2 hwaiting.2
  | cons event rest ih =>
    cases hwaiting : conn.isWaiting generation with
    | false => exact waitDrained_of_not_waiting hwaiting _
    | true =>
      unfold isWaiting at hwaiting
      unfold waitDrained
      simp only [hwaiting, if_true]
      have hwritable := flushes_onWritable hquiet event.1 event.2
      exact .of_flushes hwritable (ih (hwritable.quiet hquiet))

theorem drainBlockingResponse_drains (hquiet : conn.Quiet) (generation : Nat)
    (io : DrainIo) : Drains conn (conn.drainBlockingResponse generation io) := by
  have hflush := @flushes_flushRequest conn generation io.flush
  unfold drainBlockingResponse
  generalize conn.flushRequest generation io.flush = flushed at hflush
  obtain ⟨drained, flushed⟩ := flushed
  apply Drains.of_flushes hflush
  match drained with
  | none => exact .failed (.inr (.refl flushed))
  | some true =>
    simp only
    cases herr : flushed.err with
    | true => exact .failed (.inr (.refl flushed))
    | false => exact .done (.refl flushed) herr
  | some false =>
    have harm := @flushes_armWritable flushed (some generation) io.registered
    simp only
    generalize flushed.armWritable (some generation) io.registered = armed at harm
    obtain ⟨outcome, armed⟩ := armed
    split
    · exact .of_flushes harm
        (waitDrained_drains generation _ (harm.quiet (hflush.quiet hquiet)))
    · exact .failed (flushes_closeIf harm _)

/-! Appending. -/

/-- `chunks` are added to the stream, numbered from where it is. -/
structure Writes (conn : Conn) (chunks : List (List UInt8)) (after : Conn) : Prop where
  wire : after.wire = conn.wire ++ numbered conn.response.nextMysqlSeq chunks
  seq : after.response.nextMysqlSeq = conn.response.nextMysqlSeq + UInt8.ofNat chunks.length
  plain : after.input.reqCompressed = conn.input.reqCompressed
  err : after.err = conn.err
  quiet : conn.Quiet → after.Quiet

theorem Writes.refl (conn : Conn) : Writes conn [] conn where
  wire := by simp [numbered]
  seq := by simp
  plain := rfl
  err := rfl
  quiet := id

theorem Writes.trans (h : Writes conn left middle) (h' : Writes middle right after) :
    Writes conn (left ++ right) after where
  wire := by
    rw [h'.wire, h.wire, h.seq, numbered_append, append_assoc]
  seq := by rw [h'.seq, h.seq, seq_add, length_append]
  plain := h'.plain.trans h.plain
  err := h'.err.trans h.err
  quiet := fun hquiet => h'.quiet (h.quiet hquiet)

theorem Keeps.writes (h : Keeps conn after) : Writes conn [] after where
  wire := by simp [wire, numbered, h.output, h.response]
  seq := by simp [h.response]
  plain := by rw [h.input]
  err := h.err
  quiet := Flushes.quiet (.inr h)

/-- Unless the connection fails, `chunks` are added. -/
def Adds (conn : Conn) (chunks : List (List UInt8)) (after : Conn) : Prop :=
  after.err = true ∨ Writes conn chunks after

theorem Flushes.adds (h : Flushes conn after) : Adds conn [] after :=
  h.imp id Keeps.writes

theorem Adds.trans (h : Adds conn left middle) (h' : Adds middle right after) :
    Adds conn (left ++ right) after := by
  rcases h' with herr | hwrites
  · exact .inl herr
  · rcases h with herr | hwrites'
    · exact .inl (hwrites.err.trans herr)
    · exact .inr (hwrites'.trans hwrites)

theorem Adds.quiet (h : Adds conn chunks after) (hquiet : conn.Quiet) : after.Quiet :=
  h.elim .inl fun hwrites => hwrites.quiet hquiet

/-- Unless the connection has failed, the request is not compressed. -/
def Plain (conn : Conn) : Prop := conn.err = true ∨ conn.input.reqCompressed = false

theorem Writes.isPlain (h : Writes conn chunks after) (hplain : conn.Plain) : after.Plain := by
  rw [Plain, h.err, h.plain]
  exact hplain

theorem Adds.isPlain (h : Adds conn chunks after) (hplain : conn.Plain) : after.Plain :=
  h.elim .inl fun hwrites => hwrites.isPlain hplain

theorem writes_extendBatch (conn : Conn) (chunks : List (List UInt8)) : Writes conn chunks
      (conn.extendBatch (conn.response.batch ++ numbered conn.response.nextMysqlSeq chunks)
        (conn.response.nextMysqlSeq + UInt8.ofNat chunks.length)) where
  wire := by simp [wire, extendBatch]
  seq := rfl
  plain := rfl
  err := rfl
  quiet := id

theorem writes_moveBatch (deflate : List UInt8 → Option (List UInt8))
    (hplain : conn.input.reqCompressed = false) :
    Writes conn [] (conn.moveBatch deflate) ∧ (conn.moveBatch deflate).response.batch = [] := by
  unfold moveBatch
  simp only [hplain, Bool.not_false, Bool.true_and]
  split
  · rename_i hbatch
    exact ⟨⟨by simp [wire, numbered, hbatch], by simp, rfl, rfl, id⟩, rfl⟩
  split
  · rename_i hempty
    have hlive := live_of_outputIsEmpty hempty
    have hbatch : InBuf.live ⟨conn.response.batch, 0⟩ = conn.response.batch := rfl
    exact ⟨⟨by simp [wire, numbered, hlive, hbatch], by simp, rfl, rfl, id⟩, rfl⟩
  have hextend := InBuf.live_extend (InBuf.compactBuf_pos_le conn.outbuf)
    conn.response.batch
  unfold appendResponseLocked
  simp only [hplain, Bool.false_eq_true, if_false]
  exact ⟨⟨by simp [wire, numbered, hextend], by simp, rfl, rfl, id⟩, trivial⟩

theorem publishResponseBatch_writes (deflate : List UInt8 → Option (List UInt8))
    (generation : Nat) (isFinal : Bool) (hplain : conn.Plain) :
    conn.publishResponseBatch deflate generation isFinal = (false, conn) ∨
      ∃ after, conn.publishResponseBatch deflate generation isFinal = (true, after) ∧
        Writes conn [] after ∧ after.response.batch = [] := by
  unfold publishResponseBatch
  split
  · rename_i hopen
    have hhealthy : conn.err = false := by
      simp only [responseOpen, Bool.and_eq_true, Bool.not_eq_true'] at hopen
      exact hopen.2
    obtain ⟨hwrites, hbatch⟩ := writes_moveBatch deflate
      (hplain.resolve_left (by rw [hhealthy]; exact Bool.false_ne_true))
    refine .inr ⟨_, rfl, ?_⟩
    cases isFinal with
    | false => exact ⟨hwrites, hbatch⟩
    | true =>
      exact ⟨⟨hwrites.wire, hwrites.seq, hwrites.plain, hwrites.err,
        fun _ => .inr fun _ => FinalResponseState.noConfusion⟩, hbatch⟩
  · exact .inl rfl

/-- What a round of an append call does. -/
inductive Rounds (conn : Conn) (payloads : List (List UInt8)) : AppendRound → Prop
  | appended {framedLen : Nat} {after : Conn}
      (hwrites : Writes conn (payloads.flatMap packets) after) :
      Rounds conn payloads (.returns (some framedLen) after)
  | refused {after : Conn} (hadds : Adds conn [] after) : Rounds conn payloads (.returns none after)
  | publishes (hbatch : conn.response.batch ≠ []) : Rounds conn payloads .publishes

theorem framedBuffer_eq {layout : FrameLayout} {bufferLen : Nat} (firstSeq : UInt8)
    (hlayout : frameLayout payload.length = some layout) (hlen : layout.wireLen ≤ bufferLen) :
    (framedBuffer payload firstSeq layout bufferLen).take layout.wireLen =
      numbered firstSeq (packets payload) := by
  have hframed := (framePayloadInPlace_spec
    (ByteMemory.segment_store (fun _ => 0) headerSize payload) hlayout firstSeq).1
  rw [framedBuffer, ByteMemory.take_segment hlen, hframed]
  exact (numbered_packetsFrom firstSeq rfl).symm

theorem packetCount_eq {layout : FrameLayout} (hlayout : frameLayout payload.length = some layout) :
    layout.packetCount = (packets payload).length := by
  unfold frameLayout at hlayout
  split at hlayout
  · exact absurd hlayout (by simp)
  · rw [packets, length_packetsFrom, ← Option.some.inj hlayout]

theorem encodeMysqlGeneratedPayload_ok {encoder : Encoder} {bufferLen framedLen : Nat}
    {firstSeq nextSeq : UInt8} {buffer : List UInt8}
    (hok : encodeMysqlGeneratedPayload encoder bufferLen firstSeq = .ok framedLen buffer nextSeq) :
    ∃ payload, encoder.payload = some payload ∧ framedLen ≤ bufferLen ∧ buffer.length = bufferLen ∧
      buffer.take framedLen = numbered firstSeq (packets payload) ∧
      nextSeq = firstSeq + UInt8.ofNat (packets payload).length := by
  unfold encodeMysqlGeneratedPayload at hok
  split at hok
  · exact FrameResult.noConfusion hok
  split at hok
  · exact FrameResult.noConfusion hok
  rename_i layout hlayout
  split at hok
  · exact FrameResult.noConfusion hok
  rename_i hlen
  split at hok
  · exact FrameResult.noConfusion hok
  rename_i payload hpayload
  split at hok
  · exact FrameResult.noConfusion hok
  rename_i hplanned
  obtain ⟨rfl, rfl, rfl⟩ := FrameResult.ok.inj hok
  obtain rfl := Decidable.not_not.mp hplanned
  refine ⟨payload, hpayload, Nat.le_of_not_lt hlen, ByteMemory.length_segment _ _ _,
    framedBuffer_eq firstSeq hlayout (Nat.le_of_not_lt hlen), ?_⟩
  rw [packetCount_eq hlayout]

theorem appendEncodedRound_rounds (encoder : Encoder) (conn : Conn) :
    Rounds conn encoder.payload.toList (conn.appendEncodedRound encoder) := by
  have hrefused : Rounds conn encoder.payload.toList (.returns none conn) :=
    .refused (.inr (.refl conn))
  unfold appendEncodedRound
  simp only
  split
  · rename_i hfull
    exact .publishes hfull.1
  split
  · exact .refused (.inl rfl)
  split
  · rename_i actual buffer nextSeq hok
    obtain ⟨payload, hpayload, -, -, hbuffer, rfl⟩ := encodeMysqlGeneratedPayload_ok hok
    split
    · rw [take_length_add_append, hbuffer, hpayload]
      refine .appended ?_
      simpa using writes_extendBatch conn (packets payload)
    · exact hrefused
  · exact hrefused
  split
  · exact hrefused
  split
  · rename_i hfull
    exact .publishes fun hnil => hfull.1 (by rw [hnil]; rfl)
  split
  · rename_i encoded buffer nextSeq hok
    obtain ⟨payload, hpayload, -, hlen, hbuffer, rfl⟩ := encodeMysqlGeneratedPayload_ok hok
    split
    · exact hrefused
    rename_i hexact
    rw [Decidable.not_not.mp hexact, ← hlen, take_length] at hbuffer
    rw [hbuffer, hpayload]
    refine .appended ?_
    simpa using writes_extendBatch conn (packets payload)
  · exact hrefused

theorem appendFixedRound_rounds (hlen : payload.length < maxPayload) (conn : Conn) :
    Rounds conn [payload] (conn.appendFixedRound payload) := by
  have hpackets : packets payload = [payload] := by
    rw [packets, Nat.div_eq_of_lt hlen]
    rfl
  unfold appendFixedRound
  simp only
  split
  · rename_i hfull
    exact .publishes fun hnil => hfull.1 (by rw [hnil]; rfl)
  · refine .appended ?_
    have hwrites := writes_extendBatch conn [payload]
    simpa [numbered, hpackets] using hwrites

/-! Calls. -/

/-- Whether a call succeeded. -/
def Call.succeeded {α : Type} : Call (Option α) → Call Bool
  | .returns result conn => .returns result.isSome conn
  | .waits conn => .waits conn

/-- What a call does that is asked to append `payloads`. -/
inductive Answers (conn : Conn) (payloads : List (List UInt8)) : Call Bool → Prop
  | appended {after : Conn} (hadds : Adds conn (payloads.flatMap packets) after) :
      Answers conn payloads (.returns true after)
  | refused {after : Conn} (hadds : Adds conn [] after) :
      Answers conn payloads (.returns false after)
  | waits {after : Conn} (hwrites : Writes conn [] after)
      (hblocked : after.transportIsIdle = false) (herr : after.err = false) :
      Answers conn payloads (.waits after)

theorem Answers.of_writes {payloads : List (List UInt8)} {call : Call Bool}
    (h : Writes conn [] middle) (hanswers : Answers middle payloads call) :
    Answers conn payloads call := by
  cases hanswers with
  | appended hadds => exact .appended (Adds.trans (.inr h) hadds)
  | refused hadds => exact .refused (Adds.trans (.inr h) hadds)
  | waits hwrites hblocked herr => exact .waits (h.trans hwrites) hblocked herr

section

variable {deflate : List UInt8 → Option (List UInt8)} {generation : Nat}
  {round : Conn → AppendRound} {drains : Nat → DrainIo} {payloads : List (List UInt8)} {conn : Conn}

section

variable (hround : ∀ conn, Rounds conn payloads (round conn))

include hround

theorem appendLoop_answers (hplain : conn.Plain) (hquiet : conn.Quiet) {call : Call (Option Nat)}
    (hcall : appendLoop deflate generation round drains fuel conn = some call) :
    Answers conn payloads call.succeeded := by
  induction fuel generalizing conn with
  | zero => exact absurd hcall (by simp [appendLoop])
  | succ fuel ih =>
    have hrounds := hround conn
    rw [appendLoop] at hcall
    generalize round conn = rounded at hrounds hcall
    cases hrounds with
    | appended hwrites =>
      cases hcall
      exact .appended (.inr hwrites)
    | refused hadds =>
      cases hcall
      exact .refused hadds
    | publishes =>
      rcases publishResponseBatch_writes deflate generation false hplain with
        hpublish | ⟨moved, hpublish, hmoved, -⟩
      · rw [hpublish] at hcall
        cases hcall
        exact .refused (.inr (.refl conn))
      rw [hpublish] at hcall
      have hdrains := drainBlockingResponse_drains (hmoved.quiet hquiet) generation
        (drains fuel)
      simp only at hcall
      apply Answers.of_writes hmoved
      generalize moved.drainBlockingResponse generation (drains fuel) = drained
        at hdrains hcall
      cases hdrains with
      | failed hflushes =>
        cases hcall
        exact .refused hflushes.adds
      | waits hkeeps hblocked herr =>
        cases hcall
        exact .waits hkeeps.writes hblocked herr
      | done hkeeps =>
        simp only at hcall
        split at hcall
        · have hwrites := hkeeps.writes
          exact .of_writes hwrites (ih (hwrites.isPlain (hmoved.isPlain hplain))
            (hwrites.quiet (hmoved.quiet hquiet)) hcall)
        · cases hcall
          exact .refused (.inr hkeeps.writes)

theorem appendLoop_of_empty (hbatch : conn.response.batch = []) (fuel : Nat) :
    ∃ call, appendLoop deflate generation round drains (fuel + 1) conn = some call := by
  have hrounds := hround conn
  rw [appendLoop]
  generalize round conn = rounded at hrounds
  cases hrounds with
  | appended | refused => exact ⟨_, rfl⟩
  | publishes hne => exact absurd hbatch hne

theorem appendLoop_terminates (hplain : conn.Plain) (hquiet : conn.Quiet) (fuel : Nat) :
    ∃ call, appendLoop deflate generation round drains (fuel + 2) conn = some call := by
  have hrounds := hround conn
  rw [appendLoop]
  generalize round conn = rounded at hrounds
  cases hrounds with
  | appended | refused => exact ⟨_, rfl⟩
  | publishes =>
    rcases publishResponseBatch_writes deflate generation false hplain with
      hpublish | ⟨moved, hpublish, hmoved, hbatch⟩
    · rw [hpublish]
      exact ⟨_, rfl⟩
    rw [hpublish]
    have hdrains := drainBlockingResponse_drains (hmoved.quiet hquiet) generation
      (drains (fuel + 1))
    simp only
    generalize moved.drainBlockingResponse generation (drains (fuel + 1)) = drained
      at hdrains
    cases hdrains with
    | failed | waits => exact ⟨_, rfl⟩
    | done hkeeps =>
      simp only
      split
      · exact appendLoop_of_empty hround (by rw [hkeeps.response, hbatch]) fuel
      · exact ⟨_, rfl⟩

end

end

/-! Metadata. -/

/-- Frames that are written behind one another. -/
structure Framed (out : List UInt8 × UInt8) (chunks : List (List UInt8))
    (next : List UInt8 × UInt8) : Prop where
  bytes : next.1 = out.1 ++ numbered out.2 chunks
  seq : next.2 = out.2 + UInt8.ofNat chunks.length

theorem Framed.trans {middle : List UInt8 × UInt8}
    (h : Framed out left middle) (h' : Framed middle right next) :
    Framed out (left ++ right) next where
  bytes := by rw [h'.bytes, h.bytes, h.seq, numbered_append, append_assoc]
  seq := by rw [h'.seq, h.seq, seq_add, length_append]

theorem Framed.nil (out : List UInt8 × UInt8) : Framed out [] out :=
  ⟨by simp [numbered], by simp⟩

theorem encodeMetadataPayloadFrame_framed
    (hframe : encodeMetadataPayloadFrame outLen payload out = some next) :
    Framed out (packets payload) next := by
  unfold encodeMetadataPayloadFrame at hframe
  split at hframe
  · exact absurd hframe (by simp)
  rename_i layout hlayout
  split at hframe
  · exact absurd hframe (by simp)
  cases hframe
  have hbuffer := framedBuffer_eq out.2 hlayout le_rfl
  rw [framedBuffer, take_of_length_le (Nat.le_of_eq (ByteMemory.length_segment _ _ _)),
    ← framedBuffer] at hbuffer
  exact ⟨by rw [hbuffer], by rw [packetCount_eq hlayout]⟩

theorem encodeMetadataFieldFrame_framed {field : Encoder}
    (hframe : encodeMetadataFieldFrame outLen field out = some next) :
    Framed out (field.payload.toList.flatMap packets) next := by
  unfold encodeMetadataFieldFrame at hframe
  split at hframe
  · exact absurd hframe (by simp)
  rename_i payload hpayload
  split at hframe
  · exact absurd hframe (by simp)
  rw [hpayload]
  simpa using encodeMetadataPayloadFrame_framed hframe

theorem foldlM_framed (fields : List Encoder)
    (hfold : fields.foldlM (fun out field => encodeMetadataFieldFrame outLen field out) out =
      some next) :
    Framed out ((fields.filterMap (·.payload)).flatMap packets) next := by
  induction fields generalizing out with
  | nil =>
    cases hfold
    exact .nil _
  | cons field rest ih =>
    obtain ⟨middle, hfield, hrest⟩ := bind_eq_some_iff.mp hfold
    have hframed := (encodeMetadataFieldFrame_framed hfield).trans (ih hrest)
    cases hpayload : field.payload with
    | none | some => simpa [hpayload] using hframed

end Conn

/-- What the metadata consists of. -/
def Metadata.payloads (metadata : Metadata) : List (List UInt8) :=
  metadata.resultHeader.toList ++ metadata.fields.filterMap (·.payload) ++ [metadata.eof]

namespace Conn

theorem encodeResultHeaderFrame_framed {resultHeader : Option (List UInt8)}
    (hframe : encodeResultHeaderFrame outLen resultHeader out = some next) :
    Framed out (resultHeader.toList.flatMap packets) next := by
  cases resultHeader with
  | none =>
    cases hframe
    exact .nil _
  | some => simpa using encodeMetadataPayloadFrame_framed hframe

theorem encodeResultsetMetadataRun_framed {metadata : Metadata} {firstSeq : UInt8}
    (hrun : encodeResultsetMetadataRun metadata outLen firstSeq = some next) :
    Framed ([], firstSeq) (metadata.payloads.flatMap packets) next := by
  obtain ⟨header, hheader, hrun⟩ := bind_eq_some_iff.mp hrun
  obtain ⟨fields, hfields, hrun⟩ := bind_eq_some_iff.mp hrun
  obtain ⟨eof, heof, hrun⟩ := bind_eq_some_iff.mp hrun
  split at hrun
  · cases hrun
    have hframed := ((encodeResultHeaderFrame_framed hheader).trans
      (foldlM_framed _ hfields)).trans (encodeMetadataPayloadFrame_framed heof)
    simpa [Metadata.payloads] using hframed
  · exact absurd hrun (by simp)

theorem appendMetadata_answers (conn : Conn) (metadata : Metadata) : Answers conn metadata.payloads
      (.returns (conn.appendMetadata metadata).1.isSome (conn.appendMetadata metadata).2) := by
  have hrefused : Answers conn metadata.payloads (.returns false conn) :=
    .refused (.inr (.refl conn))
  unfold appendMetadata
  split
  · exact hrefused
  split
  · exact hrefused
  split
  · exact hrefused
  rename_i out nextSeq hrun
  have hframed := encodeResultsetMetadataRun_framed hrun
  obtain rfl : out = numbered conn.response.nextMysqlSeq (metadata.payloads.flatMap packets) := by
    simpa using hframed.bytes
  obtain rfl := hframed.seq
  exact .appended (.inr (writes_extendBatch conn _))

/-! Runs. -/

/-- What can happen to the response of a request: its worker appends or flushes,
with any generation, and the socket becomes writable. -/
inductive ResponseCall
  | encoded (generation : Nat) (encoder : Encoder) (drains : Nat → DrainIo)
  | fixed (generation : Nat) (payload : List UInt8) (drains : Nat → DrainIo)
  | metadata (generation : Nat) (includeResultHeader : Int) (fields : Option (List Encoder))
      (eofFieldCount : UInt8) (warnings statusFlags : UInt16)
  | flush (generation : Nat) (isFinal : Int) (io : DrainIo)
  | writable (io : FlushIo) (registered : Bool)

/-- What a call appends when it succeeds. -/
def ResponseCall.payloads : ResponseCall → List (List UInt8)
  | .encoded _ encoder _ => encoder.payload.toList
  | .fixed _ payload _ => [payload]
  | .metadata _ includeResultHeader fields eofFieldCount warnings statusFlags =>
    match metadataOf includeResultHeader fields eofFieldCount warnings statusFlags with
    | none => []
    | some described => described.payloads
  | .flush _ _ _ => []
  | .writable _ _ => []

/-- The call, if `fuel` is enough for its loop. -/
def ResponseCall.run (deflate : List UInt8 → Option (List UInt8)) (fuel : Nat) (conn : Conn) :
    ResponseCall → Option (Call Bool)
  | .encoded generation encoder drains =>
    (conn.appendEncodedResponse deflate generation encoder drains fuel).map Call.succeeded
  | .fixed generation payload drains =>
    (conn.appendFixedResponse deflate generation payload drains fuel).map Call.succeeded
  | .metadata generation includeResultHeader fields eofFieldCount warnings statusFlags =>
    let appended := conn.nioResponseAppendResultsetMetadata generation includeResultHeader fields
      eofFieldCount warnings statusFlags
    some (.returns appended.1.isSome appended.2)
  | .flush generation isFinal io => some (conn.nioResponseFlush deflate generation isFinal io)
  | .writable io registered => some (.returns true (conn.onWritable io registered))

/-- A call returns, with or without success. -/
inductive ResponseStep (deflate : List UInt8 → Option (List UInt8)) :
    Conn → ResponseCall × Bool → Conn → Prop
  | returns {conn after : Conn} {call : ResponseCall} {ok : Bool} (fuel : Nat)
      (hcall : call.run deflate fuel conn = some (.returns ok after)) :
      ResponseStep deflate conn (call, ok) after

/-- The payloads of the calls that succeeded, in order. -/
def appendedBy (events : List (ResponseCall × Bool)) : List (List UInt8) :=
  events.flatMap fun event => if event.2 then event.1.payloads else []

variable {generation : Nat}

section

variable {deflate : List UInt8 → Option (List UInt8)} {conn : Conn} {call : ResponseCall}

section

variable (hplain : conn.Plain) (hquiet : conn.Quiet)

include hplain hquiet

theorem appendEncodedResponse_answers {encoder : Encoder} {drains : Nat → DrainIo}
    {result : Call (Option Nat)}
    (hcall : conn.appendEncodedResponse deflate generation encoder drains fuel = some result) :
    Answers conn encoder.payload.toList result.succeeded := by
  unfold appendEncodedResponse at hcall
  split at hcall
  · cases hcall
    exact .refused (.inr (.refl conn))
  · exact appendLoop_answers (appendEncodedRound_rounds encoder) hplain hquiet hcall

theorem appendFixedResponse_answers {drains : Nat → DrainIo} {result : Call (Option Nat)}
    (hcall : conn.appendFixedResponse deflate generation payload drains fuel = some result) :
    Answers conn [payload] result.succeeded := by
  unfold appendFixedResponse at hcall
  split at hcall
  · cases hcall
    exact .refused (.inr (.refl conn))
  rename_i hguard
  have hlen : payload.length < maxPayload := by
    simp only [Bool.or_eq_true, decide_eq_true_eq, not_or] at hguard
    omega
  exact appendLoop_answers (appendFixedRound_rounds hlen) hplain hquiet hcall

theorem nioResponseFlush_answers {isFinal : Int} {io : DrainIo} :
    Answers conn [] (conn.nioResponseFlush deflate generation isFinal io) := by
  unfold nioResponseFlush
  split
  · exact .refused (.inr (.refl conn))
  rcases publishResponseBatch_writes deflate generation (decide (isFinal = 1)) hplain with
    hpublish | ⟨moved, hpublish, hmoved, -⟩
  · rw [hpublish]
    exact .refused (.inr (.refl conn))
  rw [hpublish]
  apply Answers.of_writes hmoved
  simp only
  split
  · exact .appended (.inr (.refl moved))
  have hdrains := drainBlockingResponse_drains (hmoved.quiet hquiet) generation io
  generalize moved.drainBlockingResponse generation io = drained at hdrains
  cases hdrains with
  | done hkeeps => exact .appended (.inr hkeeps.writes)
  | failed hflushes => exact .refused hflushes.adds
  | waits hkeeps hblocked herr => exact .waits hkeeps.writes hblocked herr

theorem ResponseCall.run_answers {result : Call Bool}
    (hcall : call.run deflate fuel conn = some result) :
    Answers conn call.payloads result := by
  cases call with
  | encoded =>
    obtain ⟨inner, hinner, rfl⟩ := map_eq_some_iff.mp hcall
    exact appendEncodedResponse_answers hplain hquiet hinner
  | fixed =>
    obtain ⟨inner, hinner, rfl⟩ := map_eq_some_iff.mp hcall
    exact appendFixedResponse_answers hplain hquiet hinner
  | metadata generation includeResultHeader fields eofFieldCount warnings statusFlags =>
    cases hcall
    unfold nioResponseAppendResultsetMetadata
    split
    · exact .refused (.inr (.refl conn))
    rw [ResponseCall.payloads]
    cases metadataOf includeResultHeader fields eofFieldCount warnings statusFlags with
    | none => exact .refused (.inr (.refl conn))
    | some described => exact appendMetadata_answers conn described
  | flush =>
    cases hcall
    exact nioResponseFlush_answers hplain hquiet
  | writable io registered =>
    cases hcall
    exact .appended (flushes_onWritable hquiet io registered).adds

theorem ResponseCall.run_terminates (fuel : Nat) :
    ∃ result, call.run deflate (fuel + 2) conn = some result := by
  cases call with
  | encoded generation encoder drains =>
    unfold ResponseCall.run appendEncodedResponse
    simp only
    split
    · exact ⟨_, rfl⟩
    have hloop : ∃ result, appendLoop deflate generation (appendEncodedRound encoder) drains
        (fuel + 2) conn = some result :=
      appendLoop_terminates (appendEncodedRound_rounds encoder) hplain hquiet fuel
    obtain ⟨result, hresult⟩ := hloop
    exact ⟨_, by rw [hresult]; rfl⟩
  | fixed generation payload drains =>
    unfold ResponseCall.run appendFixedResponse
    simp only
    split
    · exact ⟨_, rfl⟩
    rename_i hguard
    have hlen : payload.length < maxPayload := by
      simp only [Bool.or_eq_true, decide_eq_true_eq, not_or] at hguard
      omega
    have hloop : ∃ result, appendLoop deflate generation (appendFixedRound payload) drains
        (fuel + 2) conn = some result :=
      appendLoop_terminates (appendFixedRound_rounds hlen) hplain hquiet fuel
    obtain ⟨result, hresult⟩ := hloop
    exact ⟨_, by rw [hresult]; rfl⟩
  | metadata | flush | writable =>
    exact ⟨_, rfl⟩

theorem ResponseStep.adds {ok : Bool}
    (hstep : ResponseStep deflate conn (call, ok) after) :
    Adds conn ((if ok then call.payloads else []).flatMap packets) after := by
  cases hstep with
  | returns fuel hcall =>
    have hanswers := call.run_answers hplain hquiet hcall
    cases hanswers with
    | appended hadds | refused hadds => exact hadds

end

theorem Adds.of_run {start final : Conn} {events : List (ResponseCall × Bool)}
    (hplain : start.Plain) (hquiet : start.Quiet)
    (hrun : Execution (ResponseStep deflate) start events final) :
    Adds start ((appendedBy events).flatMap packets) final := by
  induction hrun with
  | refl => exact .inr (.refl start)
  | @snoc events event conn after _ hstep ih =>
    simpa [appendedBy] using ih.trans (hstep.adds (ih.isPlain hplain) (ih.quiet hquiet))

theorem installActiveRequestBody_true {start : Conn} {seq : UInt8} {body : List UInt8}
    (hinstall : conn.installActiveRequestBody generation seq body = (true, start)) :
    start =
      { conn with
        response := ⟨generation, seq, []⟩
        activeRequestBody := some ⟨generation, body, true, false⟩ } := by
  unfold installActiveRequestBody at hinstall
  split at hinstall
  · exact absurd (Prod.mk.inj hinstall).1 Bool.false_ne_true
  unfold ResponseWriter.begin at hinstall
  split at hinstall
  · exact absurd (Prod.mk.inj hinstall).1 Bool.false_ne_true
  rename_i hbegin
  split at hbegin
  · exact absurd (Prod.mk.inj hbegin).1 Bool.false_ne_true
  rename_i hguard
  simp only [not_or, Decidable.not_not] at hguard
  obtain rfl := (Prod.mk.inj hinstall).2
  rw [← (Prod.mk.inj hbegin).2, hguard.2.2]

/-- The response of a request that is not compressed, from its installation on, as
long as the connection does not fail: what was sent, what waits to be sent and what
is in the batch are the packets of the calls that succeeded, numbered one after the
other; a call that fails changes nothing of it; and a call needs at most two rounds,
so that it only waits for a transport that takes nothing. -/
theorem response_stream {idle start final : Conn} {generation : Nat} {lastSeq : UInt8}
    {body : List UInt8} {events : List (ResponseCall × Bool)}
    (hidle : idle.finalResponse = .idle) (hplain : idle.input.reqCompressed = false)
    (hinstall : idle.installActiveRequestBody generation (lastSeq + 1) body = (true, start))
    (hrun : Execution (ResponseStep deflate) start events final) (herr : final.err = false) :
    final.sent ++ final.outbuf.live ++ final.response.batch = start.sent ++ start.outbuf.live ++
          numbered (lastSeq + 1) ((appendedBy events).flatMap packets) ∧
      final.response.nextMysqlSeq =
        lastSeq + 1 + UInt8.ofNat ((appendedBy events).flatMap packets).length ∧
      ∀ (call : ResponseCall) (fuel : Nat), 2 ≤ fuel →
        ∃ result, call.run deflate fuel final = some result ∧
          (∀ after, result = .returns false after → after.err = false → after.wire = final.wire ∧
              after.response.nextMysqlSeq = final.response.nextMysqlSeq) ∧
          ∀ after, result = .waits after → after.transportIsIdle = false ∧ after.err = false := by
  have hstart := installActiveRequestBody_true hinstall
  have hplain : start.Plain := .inr (by rw [hstart]; exact hplain)
  have hquiet : start.Quiet := .inr fun _ => by rw [hstart, hidle]; exact nofun
  have hresponse : start.response = ⟨generation, lastSeq + 1, []⟩ := by rw [hstart]
  have hadds := Adds.of_run hplain hquiet hrun
  have hwrites := hadds.resolve_left (by rw [herr]; exact Bool.false_ne_true)
  have hwire := hwrites.wire
  have hseq := hwrites.seq
  simp only [wire, hresponse, append_nil] at hwire hseq
  refine ⟨hwire, hseq, ?_⟩
  · intro call fuel hfuel
    have hplain' := hwrites.isPlain hplain
    have hquiet' := hwrites.quiet hquiet
    obtain ⟨fuel, rfl⟩ := Nat.exists_eq_add_of_le' hfuel
    obtain ⟨result, hresult⟩ := call.run_terminates hplain' hquiet' fuel
    have hanswers := call.run_answers hplain' hquiet' hresult
    refine ⟨result, hresult, ?_, ?_⟩
    · rintro after rfl hhealthy
      cases hanswers with
      | refused hadds' =>
        have hwrites' := hadds'.resolve_left (by rw [hhealthy]; exact Bool.false_ne_true)
        exact ⟨by simpa [numbered] using hwrites'.wire, by simpa using hwrites'.seq⟩
    · rintro after rfl
      cases hanswers with
      | waits hwrites' hblocked herr' => exact ⟨hblocked, herr'⟩

end

/-- A batch is written out between two packets. -/
theorem response_stream_two :
    let io : DrainIo := ⟨⟨[.wrote 5], 0, 0, false⟩, true, []⟩
    ∃ start final : Conn,
      Conn.installActiveRequestBody
        { Conn.new 100 [] with requestBusy := true, requestGeneration := 1 } 1 (255 + 1) [] =
          (true, start) ∧
      Execution (ResponseStep fun _ => none) start
        [(.fixed 1 [7] fun _ => io, true), (.flush 1 0 io, true),
          (.fixed 1 [8] fun _ => io, true)] final ∧
      final.sent = [1, 0, 0, 0, 7] ∧
      final.sent ++ final.outbuf.live ++ final.response.batch = [1, 0, 0, 0, 7, 1, 0, 0, 1, 8] := by
  intro io
  let begun : Conn := { Conn.new 100 [] with requestBusy := true, requestGeneration := 1 }
  let start := (begun.installActiveRequestBody 1 (255 + 1) []).2
  let first := (start.extendBatch [1, 0, 0, 0, 7] 1)
  let flushed := ((first.moveBatch fun _ => none).flushRequest 1 io.flush).2
  let final := (flushed.extendBatch [1, 0, 0, 1, 8] 2)
  have hinstall : begun.installActiveRequestBody 1 (255 + 1) [] = (true, start) := by decide
  have hfirst : ResponseStep (fun _ => none) start (.fixed 1 [7] fun _ => io, true) first :=
    .returns 1 (by decide)
  have hflush : ResponseStep (fun _ => none) first (.flush 1 0 io, true) flushed :=
    .returns 1 (by decide)
  have hsecond : ResponseStep (fun _ => none) flushed (.fixed 1 [8] fun _ => io, true) final :=
    .returns 1 (by decide)
  have hrun := ((Execution.refl.snoc hfirst).snoc hflush).snoc hsecond
  have hstream := (response_stream (by decide) (by decide) hinstall hrun (by decide)).1
  exact ⟨start, final, hinstall, hrun, by decide, hstream.trans (by decide)⟩

end Conn

end SeekDB.Nio
