/-
The sliding window of a log stream (log_sliding_window.h,
log_sliding_window.cpp) on top of its parts: the allocator, the ring of log
tasks, the group buffer, the checksums and the queue of the log engine.

Every public call is one function.  The leases that keep two threads out of
`handle_next_submit_log_` and `handle_committed_log_` are always free then; how
long the lease for submitting lasts and what the engine answers is an argument
of the call.  A call that would have to wait for another one has no result.
Statistics, time stamps and `prev_lsn_` are left out.
-/
import SeekDB.LogTask
import SeekDB.LogGroupBuffer
import SeekDB.FixedSlidingWindow

namespace SeekDB

/-- `LogInfo`. -/
structure LogInfo where
  logId : Int
  lsn : Nat
  scn : Nat
  accumChecksum : BitVec 64
  deriving Repr, DecidableEq

structure PalfBaseInfo where
  prevLogInfo : LogInfo
  currLsn : Nat
  deriving Repr, DecidableEq

inductive FreezeMode
  | period
  | feedback
  deriving Repr, DecidableEq

structure FlushLogCbCtx where
  logId : Int
  scn : Nat
  lsn : Nat
  totalLen : Int
  deriving Repr, DecidableEq

def FlushLogCbCtx.isValid (ctx : FlushLogCbCtx) : Bool :=
  lsnIsValid ctx.lsn && scnIsValid ctx.scn

/-- A group in the engine's queue.  The engine is handed pieces of the ring,
not a copy; `bytes` is what they hold at that moment. -/
structure FlushLogTask where
  ctx : FlushLogCbCtx
  writeBuf : List (Nat × Nat)
  bytes : List UInt8
  deriving Repr, DecidableEq

structure LogSlidingWindow where
  sw : FixedSlidingWindow LogTask
  lsnAllocator : LSNAllocator
  groupBuffer : LogGroupBuffer
  checksum : LogChecksum
  lastSubmitLsn : Nat
  lastSubmitEndLsn : Nat
  lastSubmitLogId : Int
  maxFlushedLsn : Nat
  maxFlushedEndLsn : Nat
  lastSlideLogId : Int
  lastSlideScn : Nat
  lastSlideLsn : Nat
  lastSlideEndLsn : Nat
  lastSlideLogAccumChecksum : BitVec 64
  committedEndLsn : Nat
  freezeMode : FreezeMode
  /-- The sum of `append_cnt_array_`. -/
  appendCnt : Nat
  /-- `state_mgr_->is_active()`. -/
  isActive : Bool
  /-- Everything that was put into the queue of the log engine. -/
  logEngine : List FlushLogTask

/-- `APPEND_CNT_LB_FOR_PERIOD_FREEZE`. -/
def appendCntLbForPeriodFreeze : Nat := 140000

/-- A pointer to the bytes of a list. -/
def bytesAt (bytes : List UInt8) (i : Nat) : UInt8 := bytes.getD i 0

/-- `OB_SUCC(ret)`. -/
def ObRet.isSuccess (ret : ObRet) : Bool := decide (ret = .success)

namespace LogSlidingWindow

/-- `init`, in the state that `LogStateMgr` puts the stream in. -/
def init (info : PalfBaseInfo) (isActive : Bool) : Option LogSlidingWindow :=
  match FixedSlidingWindow.init (info.prevLogInfo.logId + 1) palfSlidingWindowSize,
    LSNAllocator.reset.init info.prevLogInfo.logId info.prevLogInfo.scn info.currLsn,
    LogGroupBuffer.init info.currLsn with
  | some sw, (.success, lsnAllocator), some groupBuffer =>
    some
      { sw := sw
        lsnAllocator := lsnAllocator
        groupBuffer := groupBuffer
        checksum := LogChecksum.init info.prevLogInfo.accumChecksum
        lastSubmitLsn := info.prevLogInfo.lsn
        lastSubmitEndLsn := info.currLsn
        lastSubmitLogId := info.prevLogInfo.logId
        maxFlushedLsn := info.prevLogInfo.lsn
        maxFlushedEndLsn := info.currLsn
        lastSlideLogId := info.prevLogInfo.logId
        lastSlideScn := info.prevLogInfo.scn
        lastSlideLsn := info.prevLogInfo.lsn
        lastSlideEndLsn := info.currLsn
        lastSlideLogAccumChecksum := info.prevLogInfo.accumChecksum
        committedEndLsn := info.currLsn
        freezeMode := .feedback
        appendCnt := 0
        isActive := isActive
        logEngine := [] }
  | _, _, _ => none

def getStartId (self : LogSlidingWindow) : Int := self.sw.beginSn

def getMaxLogId (self : LogSlidingWindow) : Int := self.lsnAllocator.getMaxLogId

/-! Log tasks. -/

/-- `LogTaskGuard::get_log_task`. -/
def getLogTask (self : LogSlidingWindow) (logId : Int) : ObRet × LogSlidingWindow :=
  if logId ≤ 0 then (.invalidArgument, self)
  else
    let out := self.sw.get logId.toNat
    (out.1, { self with sw := out.2.2 })

/-- `LogTaskGuard::revert_log_task`. -/
def revertLogTask (self : LogSlidingWindow) (logId : Int) : LogSlidingWindow :=
  { self with sw := (self.sw.revert logId.toNat).2.2 }

/-- The task that a guard for this id points to. -/
def logTask (self : LogSlidingWindow) (logId : Int) : LogTask :=
  (self.sw.slot logId.toNat).data

def setLogTask (self : LogSlidingWindow) (logId : Int) (task : LogTask) :
    LogSlidingWindow :=
  { self with sw := self.sw.setData (self.sw.calcIdx logId.toNat) task }

section

variable {β : Type}

/-- The scope of a `LogTaskGuard`. -/
def withLogTask (self : LogSlidingWindow) (logId : Int) (failed : ObRet → β)
    (body : LogSlidingWindow → β × LogSlidingWindow) : β × LogSlidingWindow :=
  match self.getLogTask logId with
  | (.success, held) =>
    let out := body held
    (out.1, out.2.revertLogTask logId)
  | (ret, next) => (failed ret, next)

/-- The scope of a `LogTaskGuard` in which the call may have to wait. -/
def withLogTaskWait (self : LogSlidingWindow) (logId : Int) (failed : ObRet → β)
    (body : LogSlidingWindow → Option (β × LogSlidingWindow)) :
    Option (β × LogSlidingWindow) :=
  match self.getLogTask logId with
  | (.success, held) =>
    (body held).map fun out => (out.1, out.2.revertLogTask logId)
  | (ret, next) => some (failed ret, next)

end

/-! Admission. -/

def canSubmitLargerLog (self : LogSlidingWindow) (logId : Int) : Bool :=
  !(decide ((palfMaxSubmitLogCount : Int) ≤ logId - self.getStartId) ||
    decide ((self.sw.endSn : Int) ≤ logId))

/-- `lsn_upper_bound` as `can_submit_new_log_` computes it. -/
def lsnUpperBound (self : LogSlidingWindow) : Nat :=
  u64 (min self.committedEndLsn self.groupBuffer.reuseLsn + self.groupBuffer.availableBufferSize)

def canSubmitNewLog (self : LogSlidingWindow) (validLogSize : Int) : Bool :=
  match self.lsnAllocator.getCurrEndLsn with
  | (.success, some currEndLsn) =>
    self.groupBuffer.canHandleNewLog currEndLsn validLogSize self.committedEndLsn
  | _ => false

/-- `wait_sw_slot_ready_`; `none` while its loop goes on. -/
def waitSwSlotReady (self : LogSlidingWindow) (logId : Int) : Option ObRet :=
  if self.canSubmitLargerLog logId = false then none
  else
    match (self.getLogTask logId).1 with
    | .errOutOfUpperBound => none
    | ret => some ret

/-- Whether the loop of `wait_group_buffer_ready_` ends. -/
def groupBufferReady (self : LogSlidingWindow) (lsn : Nat) (dataLen : Int) : Bool :=
  self.groupBuffer.canHandleNewLog lsn dataLen self.committedEndLsn

/-! Freezing. -/

/-- What decides whether the group can be submitted now. -/
def isComplete (task : LogTask) : Bool := task.isFreezed && decide (task.refCnt = 0)

/-- `try_freeze_prev_log_`, with `is_need_handle`. -/
def tryFreezePrevLog (self : LogSlidingWindow) (nextLogId : Int) (lsn : Nat) :
    (ObRet × Bool) × LogSlidingWindow :=
  if nextLogId = obInvalidLogId ∨ lsnIsValid lsn = false then
    ((.invalidArgument, false), self)
  else if nextLogId = 1 then ((.success, false), self)
  else
    let logId := nextLogId - 1
    self.withLogTask logId
      (fun ret => (if ret = .errOutOfLowerBound then .success else ret, false))
      fun held =>
        let task := held.logTask logId
        let next := if task.isValid then (task.tryFreeze lsn).2 else task.setEndLsn lsn
        ((.success, isComplete next), held.setLogTask logId next)

/-- `try_freeze_last_log_task_`. -/
def tryFreezeLastLogTask (self : LogSlidingWindow) (expectedLogId : Int) (expectedEndLsn : Nat) :
    ObRet × LogSlidingWindow :=
  if expectedLogId = obInvalidLogId ∨ lsnIsValid expectedEndLsn = false then
    (.invalidArgument, self)
  else
    self.withLogTask expectedLogId
      (fun ret => if ret = .errOutOfLowerBound then .success else ret)
      fun held =>
        let task := held.logTask expectedLogId
        let logEndLsn := u64 (task.header.beginLsn + logGroupEntryHeaderSize +
          task.header.dataLen.toNat)
        if task.isValid = false then (.success, held)
        else if expectedEndLsn < logEndLsn then (.errUnexpected, held)
        else (.success, held.setLogTask expectedLogId (task.tryFreeze expectedEndLsn).2)

/-! Handing groups to the engine. -/

/-- `set_last_submit_log_info_`. -/
def setLastSubmitLogInfo (self : LogSlidingWindow) (lsn endLsn : Nat) (logId : Int) :
    LogSlidingWindow :=
  if lsnIsValid lsn = false ∨ lsnIsValid endLsn = false ∨ logId = obInvalidLogId then self
  else
    { self with
      lastSubmitLsn := lsn
      lastSubmitEndLsn := endLsn
      lastSubmitLogId := logId }

section

variable (hashes : Checksums)

/-- `generate_group_entry_header_`: the header, the checksum of the data and the
accumulated checksums. -/
def generateGroupEntryHeader (self : LogSlidingWindow) (logId : Int) (task : LogTask) :
    Except ObRet (LogGroupEntryHeader × BitVec 64 × LogChecksum) :=
  let info := task.header
  -- an imported group keeps the committed boundary of its source
  let logCommittedEndLsn :=
    if lsnIsValid info.committedEndLsn then info.committedEndLsn else self.committedEndLsn
  if logId = obInvalidLogId then .error .invalidArgument
  else if info.beginLsn < logCommittedEndLsn then .error .errUnexpected
  else
    match self.groupBuffer.getLogBuf info.beginLsn
      (logGroupEntryHeaderSize + info.dataLen) with
    | .error ret => .error ret
    | .ok logWriteBuf =>
      match LogGroupEntryHeader.generate hashes info.isPaddingLog
        (logWriteBuf.map self.groupBuffer.pieceBytes) info.dataLen info.maxScn logId
        logCommittedEndLsn with
      | .error ret => .error ret
      | .ok (header, dataChecksum) =>
        let checksum := self.checksum.acquireAccumChecksum hashes dataChecksum
        .ok (LogGroupEntryHeader.updateHeaderChecksum hashes
          { header with accumulatedChecksum := checksum.accumChecksum },
          dataChecksum, checksum)

/-- The part of `handle_next_submit_log_` behind the task's lock: the header goes
into the buffer and the group into the engine's queue. -/
def handOver (self : LogSlidingWindow) (header : LogGroupEntryHeader)
    (ctx : FlushLogCbCtx) (logEndLsn : Nat) (answer : ObRet) :
    ObRet × LogSlidingWindow :=
  match header.serialize with
  | .error ret => (ret, self)
  | .ok headerBytes =>
    match self.groupBuffer.fill ctx.lsn (bytesAt headerBytes) headerBytes.length with
    | (.success, groupBuffer) =>
      let filled := { self with groupBuffer := groupBuffer }
      match groupBuffer.getLogBuf ctx.lsn ctx.totalLen with
      | .error ret => (ret, filled)
      | .ok logWriteBuf =>
        if ctx.isValid = false ∨ logWriteBuf.isEmpty then (.invalidArgument, filled)
        else if answer.isSuccess = false then (answer, filled)
        else
          let flushTask : FlushLogTask :=
            ⟨ctx, logWriteBuf, (logWriteBuf.map groupBuffer.pieceBytes).flatten⟩
          (.success,
            { filled with logEngine := filled.logEngine ++ [flushTask] }.setLastSubmitLogInfo
              ctx.lsn logEndLsn ctx.logId)
    | (ret, groupBuffer) => (ret, { self with groupBuffer := groupBuffer })

/-- The round of `handle_next_submit_log_` for a complete group, inside the
task's guard: the code and whether the loop goes on.  Rolling the checksum back
overwrites the code of the failure. -/
def submitLogTask (self : LogSlidingWindow) (logId : Int) (task : LogTask) (answer : ObRet) :
    (ObRet × Bool) × LogSlidingWindow :=
  let beginLsn := task.header.beginLsn
  let logEndLsn := u64 (beginLsn + logGroupEntryHeaderSize + task.header.dataLen.toNat)
  if self.lastSubmitEndLsn ≠ beginLsn then
    ((.errUnexpected, false), self.setLogTask logId task.resetPreSubmit)
  else
    match self.generateGroupEntryHeader hashes logId task with
    | .error ret => ((ret, false), self.setLogTask logId task.resetPreSubmit)
    | .ok (header, dataChecksum, checksum) =>
      let updated := (task.setGroupLogChecksum dataChecksum).updateHeaderInfo
        header.committedEndLsn header.accumulatedChecksum
      let acquired := { self with checksum := checksum }
      let ctx : FlushLogCbCtx :=
        ⟨logId, updated.2.header.minScn, beginLsn, logGroupEntryHeaderSize + header.groupSize⟩
      let out :=
        if updated.1.isSuccess then acquired.handOver header ctx logEndLsn answer
        else (updated.1, acquired)
      if out.1.isSuccess then ((.success, true), out.2.setLogTask logId updated.2)
      else
        let rolled := checksum.rollbackAccumChecksum header.accumulatedChecksum
        ((rolled.1, rolled.1.isSuccess),
          { out.2 with checksum := rolled.2 }.setLogTask logId updated.2.resetPreSubmit)

/-- One round of `handle_next_submit_log_`. -/
def submitNextLog (self : LogSlidingWindow) (answer : ObRet) :
    (ObRet × Bool) × LogSlidingWindow :=
  let logId := self.lastSubmitLogId + 1
  self.withLogTask logId (fun ret => (ret, false)) fun held =>
    let task := held.logTask logId
    if task.isValid = false then ((.success, false), held)
    else
      let preSubmit := task.tryPreSubmit
      if preSubmit.1 = false then
        ((.success, false), held.setLogTask logId preSubmit.2)
      else held.submitLogTask hashes logId preSubmit.2 answer

/-- `handle_next_submit_log_`: one answer of the engine for each round until the
lease expires. -/
def handleNextSubmitLog (self : LogSlidingWindow) :
    List ObRet → ObRet × LogSlidingWindow
  | [] => (.success, self)
  | answer :: rest =>
    match self.submitNextLog hashes answer with
    | ((.success, true), next) => next.handleNextSubmitLog rest
    | ((ret, _), next) => (ret, next)

/-! Sliding. -/

/-- `try_update_last_slide_log_info_`. -/
def tryUpdateLastSlideLogInfo (self : LogSlidingWindow) (logId : Int)
    (scn lsn endLsn : Nat) (accumChecksum : BitVec 64) : LogSlidingWindow :=
  if lsnIsValid lsn = false ∨ lsnIsValid endLsn = false ∨ logId = obInvalidLogId ∨
      scnIsValid scn = false then self
  else
    { self with
      lastSlideLogId := logId
      lastSlideScn := scn
      lastSlideLsn := lsn
      lastSlideEndLsn := endLsn
      lastSlideLogAccumChecksum := accumChecksum }

def slidingCb (self : LogSlidingWindow) (sn : Int) : ObRet × LogSlidingWindow :=
  let task := self.logTask sn
  let logEndLsn := u64 (task.header.beginLsn + logGroupEntryHeaderSize + task.header.dataLen.toNat)
  match self.checksum.verifyAccumChecksum hashes task.header.dataChecksum
    task.header.accumChecksum with
  | (.success, checksum) =>
    (.success, { self with checksum := checksum }.tryUpdateLastSlideLogInfo sn
      task.header.maxScn task.header.beginLsn logEndLsn task.header.accumChecksum)
  | (ret, checksum) => (ret, { self with checksum := checksum })

/-- `FixedSlidingWindow::slide` with this window's callback.  Every round slides
one task out and no slot is slid out twice, so the slots bound the rounds. -/
def slide (self : LogSlidingWindow) : Nat → ObRet × LogSlidingWindow
  | 0 => (.success, self)
  | fuel + 1 =>
    if self.sw.endSn ≤ self.sw.beginSn then (.success, self)
    else if (self.logTask self.sw.beginSn).canBeSlid = false then (.success, self)
    else
      match self.slidingCb hashes self.sw.beginSn with
      | (.success, next) => { next with sw := next.sw.slideOne.2 }.slide fuel
      | (ret, next) => (ret, next)

/-- One round of `handle_committed_log_`: the code and whether there is another
round.  A first log that is out of the window would have been slid out by
another thread. -/
def slideFirstLog (self : LogSlidingWindow) (committedEndLsn : Nat) :
    (ObRet × Bool) × LogSlidingWindow :=
  let logId : Int := self.sw.beginSn
  self.withLogTask logId
    (fun ret => if ret = .errOutOfLowerBound then (.success, true) else (ret, false))
    fun held =>
      let task := held.logTask logId
      let logEndLsn := u64 (task.header.beginLsn + logGroupEntryHeaderSize +
        task.header.dataLen.toNat)
      if task.isValid = false then ((.success, false), held)
      else if task.isFreezed ∧ logEndLsn ≤ held.maxFlushedEndLsn ∧ logEndLsn ≤ committedEndLsn then
        let preSlide := task.tryPreSlide
        if preSlide.1 = false then ((.success, false), held)
        else
          match (held.setLogTask logId preSlide.2).slide hashes held.sw.size with
          | (.success, next) => ((.success, true), next)
          | (ret, next) =>
            ((ret, false), next.setLogTask logId (next.logTask logId).resetPreSlide)
      else ((.success, false), held)

/-- The loop of `handle_committed_log_`.  A slot that was slid out is reset
before it is used again, so the slots bound the rounds here as well. -/
def slideCommittedLogs (self : LogSlidingWindow) (committedEndLsn : Nat) :
    Nat → ObRet × LogSlidingWindow
  | 0 => (.success, self)
  | fuel + 1 =>
    match self.slideFirstLog hashes committedEndLsn with
    | ((.success, true), next) => next.slideCommittedLogs committedEndLsn fuel
    | ((ret, _), next) => (ret, next)

def handleCommittedLog (self : LogSlidingWindow) : ObRet × LogSlidingWindow :=
  if self.committedEndLsn ≤ self.lastSlideEndLsn then (.success, self)
  else self.slideCommittedLogs hashes self.committedEndLsn (self.sw.size + 1)

/-! Freezing the last group. -/

/-- `feedback_freeze_last_log_`. -/
def feedbackFreezeLastLog (self : LogSlidingWindow) (answers : List ObRet) :
    ObRet × LogSlidingWindow :=
  if self.freezeMode ≠ .feedback then (.success, self)
  else
    match self.lsnAllocator.tryFreeze with
    | (⟨.success, lastLogEndLsn, lastLogId⟩, lsnAllocator) =>
      let cut := { self with lsnAllocator := lsnAllocator }
      if lastLogId ≤ 0 then (.success, cut)
      else
        match cut.tryFreezeLastLogTask lastLogId lastLogEndLsn with
        | (.success, frozen) =>
          let handled := (frozen.handleNextSubmitLog hashes answers).2
          (.success, (handled.handleCommittedLog hashes).2)
        | (ret, frozen) => (ret, frozen)
    | (⟨ret, _, _⟩, lsnAllocator) => (ret, { self with lsnAllocator := lsnAllocator })

/-- `try_feedback_freeze_log_task_`; its guard is held all the time. -/
def tryFeedbackFreezeLogTask (self : LogSlidingWindow) (expectedLogId : Int)
    (answers : List ObRet) : ObRet × LogSlidingWindow :=
  self.withLogTask expectedLogId
    (fun ret =>
      if ret = .errOutOfLowerBound ∨ ret = .errOutOfUpperBound then .success else ret)
    fun held =>
      let task := held.logTask expectedLogId
      if task.isFreezed = false ∧ lsnIsValid task.header.beginLsn ∧
          task.header.beginLsn ≤ held.maxFlushedEndLsn then
        (.success, (held.feedbackFreezeLastLog hashes answers).2)
      else (.success, held)

/-- `check_and_switch_freeze_mode`. -/
def checkAndSwitchFreezeMode (self : LogSlidingWindow) (answers : List ObRet) :
    ObRet × LogSlidingWindow :=
  let counted := { self with appendCnt := 0 }
  match self.freezeMode with
  | .feedback =>
    if appendCntLbForPeriodFreeze ≤ self.appendCnt then
      (.success, { counted with freezeMode := .period })
    else (.success, counted)
  | .period =>
    if self.appendCnt < appendCntLbForPeriodFreeze then
      (.success, ({ counted with freezeMode := .feedback }.feedbackFreezeLastLog hashes answers).2)
    else (.success, counted)

/-- `period_freeze_last_log`. -/
def periodFreezeLastLog (self : LogSlidingWindow) (answers : List ObRet) :
    ObRet × LogSlidingWindow :=
  let out : ObRet × LogSlidingWindow :=
    if self.freezeMode ≠ .period then (.success, self)
    else
      match self.lsnAllocator.tryFreeze with
      | (⟨.success, lastLogEndLsn, lastLogId⟩, lsnAllocator) =>
        let cut := { self with lsnAllocator := lsnAllocator }
        if lastLogId ≤ 0 then (.success, cut)
        else cut.tryFreezeLastLogTask lastLogId lastLogEndLsn
      | (⟨ret, _, _⟩, lsnAllocator) => (ret, { self with lsnAllocator := lsnAllocator })
  let handled :=
    if out.2.lastSubmitLogId < out.2.getMaxLogId then
      (out.2.handleNextSubmitLog hashes answers).2
    else out.2
  (out.1, (handled.handleCommittedLog hashes).2)

/-! Flushing. -/

/-- `inc_update_max_flushed_log_info_`. -/
def incUpdateMaxFlushedLogInfo (self : LogSlidingWindow) (lsn endLsn : Nat) :
    LogSlidingWindow :=
  if lsnIsValid lsn = false ∨ lsnIsValid endLsn = false then self
  else if lsnIsValid self.maxFlushedEndLsn ∧ endLsn ≤ self.maxFlushedEndLsn then self
  else { self with maxFlushedLsn := lsn, maxFlushedEndLsn := endLsn }

/-- `try_advance_committed_lsn_`. -/
def tryAdvanceCommittedLsn (self : LogSlidingWindow) (endLsn : Nat) :
    LogSlidingWindow :=
  if lsnIsValid endLsn = false then self
  else { self with committedEndLsn := max self.committedEndLsn endLsn }

/-- `gen_committed_end_lsn_`. -/
def genCommittedEndLsn (self : LogSlidingWindow) : LogSlidingWindow :=
  self.tryAdvanceCommittedLsn self.maxFlushedEndLsn

/-- `after_flush_log`. -/
def afterFlushLog (self : LogSlidingWindow) (ctx : FlushLogCbCtx) (feedback next : List ObRet) :
    ObRet × LogSlidingWindow :=
  let logEndLsn := u64 (ctx.lsn + ctx.totalLen.toNat)
  if ctx.isValid = false then (.invalidArgument, self)
  else
    match self.withLogTask ctx.logId id fun held => (ObRet.success, held) with
    | (.success, seen) =>
      let flushed := seen.incUpdateMaxFlushedLogInfo ctx.lsn logEndLsn
      let committed := if flushed.isActive then flushed.genCommittedEndLsn else flushed
      let lastSubmitLogId := committed.lastSubmitLogId
      let frozen := (committed.tryFeedbackFreezeLogTask hashes (ctx.logId + 1) feedback).2
      let handled :=
        if ctx.logId = lastSubmitLogId then (frozen.handleNextSubmitLog hashes next).2
        else frozen
      (.success, (handled.handleCommittedLog hashes).2)
    | (ret, seen) => (ret, seen)

/-- `advance_reuse_lsn`. -/
def advanceReuseLsn (self : LogSlidingWindow) (flushLogEndLsn : Nat) :
    ObRet × LogSlidingWindow :=
  let out := self.groupBuffer.incUpdateReuseLsn flushLogEndLsn
  (out.1, { self with groupBuffer := out.2 })

def incUpdateScnBase (self : LogSlidingWindow) (scn : Nat) : ObRet × LogSlidingWindow :=
  let out := self.lsnAllocator.incUpdateScnBase scn
  (out.1, { self with lsnAllocator := out.2 })

/-! Filling groups. -/

/-- Data and header of one entry go into the buffer. -/
def fillLogEntry (self : LogSlidingWindow) (entryLsn scn : Nat) (logData : List UInt8) :
    ObRet × LogSlidingWindow :=
  match self.groupBuffer.fill (u64 (entryLsn + logEntryHeaderSize)) (bytesAt logData)
    logData.length with
  | (.success, dataBuffer) =>
    match LogEntryHeader.generateHeader hashes logData scn with
    | .error ret => (ret, { self with groupBuffer := dataBuffer })
    | .ok header =>
      match header.serialize with
      | .error ret => (ret, { self with groupBuffer := dataBuffer })
      | .ok headerBytes =>
        let out := dataBuffer.fill entryLsn (bytesAt headerBytes) headerBytes.length
        (out.1, { self with groupBuffer := out.2 })
  | (ret, dataBuffer) => (ret, { self with groupBuffer := dataBuffer })

/-- The body of a padding goes into the buffer. -/
def fillPaddingLog (self : LogSlidingWindow) (lsn scn : Nat) (logBodySize : Int) :
    ObRet × LogSlidingWindow :=
  match LogEntryHeader.generatePaddingLogBuf hashes (logBodySize - logEntryHeaderSize) scn
    paddingLogEntrySize with
  | .error ret => (ret, self)
  | .ok paddingValidData =>
    let out := self.groupBuffer.fillPaddingBody (u64 (lsn + logGroupEntryHeaderSize))
      (bytesAt paddingValidData) paddingLogEntrySize logBodySize
    (out.1, { self with groupBuffer := out.2 })

/-- `append_to_group_log_`, with `is_need_handle`. -/
def appendToGroupLog (self : LogSlidingWindow) (lsn : Nat) (logId : Int) (scn : Nat)
    (logEntrySize : Int) (logData : List UInt8) :
    Option ((ObRet × Bool) × LogSlidingWindow) :=
  if lsnIsValid lsn = false ∨ scnIsValid scn = false ∨ logId = obInvalidLogId ∨
      logEntrySize ≤ 0 ∨ logData.isEmpty then
    some ((.invalidArgument, false), self)
  else
    self.withLogTaskWait logId (fun ret => (ret, false)) fun held =>
      -- the task is updated first, whether or not it is valid yet
      let task := ((held.logTask logId).incUpdateMaxScn scn).updateDataLen logEntrySize
      let counted := held.setLogTask logId task
      if counted.groupBufferReady lsn logEntrySize = false then none
      else
        match counted.fillLogEntry hashes lsn scn logData with
        | (.success, filled) =>
          let done := task.ref logEntrySize true
          some ((.success, isComplete done), filled.setLogTask logId done)
        | (ret, filled) => some ((ret, false), filled)

/-- `generate_new_group_log_`, with `is_need_handle`; a padding has no data. -/
def generateNewGroupLog (self : LogSlidingWindow) (lsn : Nat) (logId : Int) (scn : Nat)
    (logBodySize : Int) (isPaddingLog : Bool) (logData : List UInt8) :
    Option ((ObRet × Bool) × LogSlidingWindow) :=
  if lsnIsValid lsn = false ∨ scnIsValid scn = false ∨ logBodySize ≤ 0 ∨
      logId = obInvalidLogId ∨ (isPaddingLog = false ∧ logData.isEmpty) then
    some ((.invalidArgument, false), self)
  else
    self.withLogTaskWait logId (fun ret => (ret, false)) fun held =>
      let info : LogTaskHeaderInfo :=
        { LogTaskHeaderInfo.reset with
          beginLsn := lsn
          isPaddingLog := isPaddingLog
          logId := logId
          minScn := scn
          maxScn := scn
          dataLen := logBodySize }
      match (held.logTask logId).setInitialHeaderInfo info with
      | (.success, initial) =>
        let task := initial.tryFreezeByMyself.2
        let started := held.setLogTask logId task
        if started.groupBufferReady lsn (logBodySize + logGroupEntryHeaderSize) = false then
          none
        else
          let out :=
            if isPaddingLog then started.fillPaddingLog hashes lsn scn logBodySize
            else started.fillLogEntry hashes (u64 (lsn + logGroupEntryHeaderSize)) scn
              logData
          if out.1.isSuccess then
            let done := (task.ref logBodySize true).setSubmitLogExist.2
            some ((.success, isComplete done), out.2.setLogTask logId done)
          else some ((out.1, isComplete task), out.2)
      | (ret, _) => some ((ret, false), held)

/-- Go on after a successful part, collecting `is_need_handle_next`. -/
def andThen (first : Option ((ObRet × Bool) × LogSlidingWindow))
    (rest : LogSlidingWindow → Option ((ObRet × Bool) × LogSlidingWindow)) :
    Option ((ObRet × Bool) × LogSlidingWindow) :=
  match first with
  | none => none
  | some ((.success, isNeedHandle), next) =>
    (rest next).map fun out => ((out.1.1, isNeedHandle || out.1.2), out.2)
  | some (out, next) => some (out, next)

/-- The padding of `submit_log`. -/
def submitPadding (self : LogSlidingWindow) (grant : AllocGrant) :
    Option ((ObRet × Bool) × LogSlidingWindow) :=
  if grant.needGenPaddingEntry then
    let paddingEntryBodySize : Int := grant.paddingLen - logGroupEntryHeaderSize
    andThen (some (self.tryFreezePrevLog grant.logId grant.lsn)) fun frozen =>
      frozen.generateNewGroupLog hashes grant.lsn grant.logId grant.scnVal
        paddingEntryBodySize true []
  else some ((.success, false), self)

/-- Where the log of a grant goes when a padding may precede it: begin of the
group or entry, log id and SCN. -/
def logPlace (grant : AllocGrant) : Nat × Int × Nat :=
  if grant.needGenPaddingEntry then
    (u64 (grant.lsn + grant.paddingLen), grant.logId + 1, scnPlus grant.scnVal 1)
  else (grant.lsn, grant.logId, grant.scnVal)

/-- The log of `submit_log`, in a new group or in the last one. -/
def submitBody (self : LogSlidingWindow) (grant : AllocGrant) (logData : List UInt8)
    (feedback : List ObRet) : Option ((ObRet × Bool) × LogSlidingWindow) :=
  let lsn := (logPlace grant).1
  let logId := (logPlace grant).2.1
  let scn := (logPlace grant).2.2
  let validLogSize : Int := logEntryHeaderSize + logData.length
  if grant.isNewGroupLog then
    andThen (some (self.tryFreezePrevLog logId lsn)) fun frozen =>
      andThen (frozen.generateNewGroupLog hashes lsn logId scn validLogSize false logData)
        fun generated =>
          some ((.success, false), (generated.tryFeedbackFreezeLogTask hashes logId feedback).2)
  else self.appendToGroupLog hashes lsn logId scn validLogSize logData

/-- What `submit_log` returns; position and SCN are set once the log has got
its place. -/
structure SubmitOut where
  ret : ObRet
  lsn : Nat
  scn : Nat
  deriving Repr, DecidableEq

def SubmitOut.failed (ret : ObRet) : SubmitOut := ⟨ret, logInvalidLsnVal, obInvalidScnVal⟩

/-- `submit_log` once it has got its grant. -/
def submitGranted (self : LogSlidingWindow) (grant : AllocGrant) (logData : List UInt8)
    (feedback next : List ObRet) : Option (SubmitOut × LogSlidingWindow) :=
  match self.waitSwSlotReady grant.logId with
  | none => none
  | some .success =>
    match self.submitPadding hashes grant with
    | none => none
    | some ((.success, paddingNeedHandle), padded) =>
      let place := logPlace grant
      let lsn :=
        if grant.isNewGroupLog then u64 (place.1 + logGroupEntryHeaderSize) else place.1
      match padded.submitBody hashes grant logData feedback with
      | none => none
      | some ((ret, isNeedHandle), submitted) =>
        let counted := { submitted with appendCnt := submitted.appendCnt + 1 }
        if ret.isSuccess && (paddingNeedHandle || isNeedHandle) then
          some (⟨ret, lsn, place.2.2⟩, (counted.handleNextSubmitLog hashes next).2)
        else some (⟨ret, lsn, place.2.2⟩, counted)
    | some ((ret, _), padded) => some (⟨ret, grant.lsn, grant.scnVal⟩, padded)
  | some ret => some (.failed ret, self)

/-- The checks and the allocation at the head of `submit_log`. -/
def admission (self : LogSlidingWindow) (bufLen refScn : Nat) :
    Option (AllocResult × LSNAllocator) :=
  let validLogSize : Int := logEntryHeaderSize + bufLen
  let logIdUpperBound : Int := self.getStartId + palfMaxSubmitLogCount - 1
  if bufLen = 0 ∨ maxLogBodySize < bufLen ∨ scnIsValid refScn = false then
    some (.refused .invalidArgument, self.lsnAllocator)
  else if self.canSubmitNewLog validLogSize = false ∨
      self.canSubmitLargerLog (self.getMaxLogId + 1) = false then
    some (.refused .eagain, self.lsnAllocator)
  else
    (self.lsnAllocator.allocLsnScn
      ⟨refScn, validLogSize, logIdUpperBound, self.lsnUpperBound⟩).map Prod.snd

/-- `submit_log`.  The lists answer for the engine when the group is frozen at
once and when groups are submitted at the end. -/
def submitLog (self : LogSlidingWindow) (buf : List UInt8) (refScn : Nat)
    (feedback next : List ObRet) : Option (SubmitOut × LogSlidingWindow) :=
  match self.admission buf.length refScn with
  | none => none
  | some (.refused ret, lsnAllocator) =>
    some (.failed ret, { self with lsnAllocator := lsnAllocator })
  | some (.granted grant, lsnAllocator) =>
    let granted := { self with lsnAllocator := lsnAllocator }
    if grant.ret.isSuccess then
      granted.submitGranted hashes grant buf feedback next
    else some (.failed grant.ret, granted)

/-! Groups that were assembled elsewhere. -/

/-- `get_min_scn_from_buf_`. -/
def getMinScnFromBuf (header : LogGroupEntryHeader) (buf : List UInt8) :
    Except ObRet Nat :=
  if header.isPaddingLog then .ok header.maxScn
  else
    match LogEntryHeader.deserialize hashes buf with
    | .error ret => .error ret
    | .ok (entryHeader, _) => .ok entryHeader.scn

/-- `try_update_max_lsn_`. -/
def tryUpdateMaxLsn (self : LogSlidingWindow) (lsn : Nat) (header : LogGroupEntryHeader) :
    ObRet × LogSlidingWindow :=
  let endLsn := u64 (lsn + logGroupEntryHeaderSize + header.groupSize.toNat)
  let out := self.lsnAllocator.incUpdateLastLogInfo endLsn header.logId header.maxScn
  (out.1, { self with lsnAllocator := out.2 })

/-- The part of `submit_imported_group` inside the guard. -/
def installImportedGroup (self : LogSlidingWindow) (currEndLsn : Nat) (buf body : List UInt8)
    (header : LogGroupEntryHeader) (groupLogChecksum : BitVec 64) (answers : List ObRet) :
    Option (ObRet × LogSlidingWindow) :=
  let task := self.logTask header.logId
  if task.isValid then some (.stateNotMatch, self)
  else
    match getMinScnFromBuf hashes header body with
    | .error ret => some (ret, self)
    | .ok minScn =>
      if self.groupBufferReady currEndLsn buf.length = false then none
      else
        match self.groupBuffer.fill currEndLsn (bytesAt buf) buf.length with
        | (.success, groupBuffer) =>
          let filled := { self with groupBuffer := groupBuffer }
          match task.setGroupHeader currEndLsn minScn header with
          | (.success, installed) =>
            let done := ((installed.setGroupLogChecksum
              groupLogChecksum).setSubmitLogExist.2).setFreezed
            match (filled.setLogTask header.logId done).tryUpdateMaxLsn currEndLsn header with
            | (.success, advanced) =>
              some (advanced.handleNextSubmitLog hashes answers)
            | (ret, advanced) => some (ret, advanced)
          | (ret, _) => some (ret, filled)
        | (ret, groupBuffer) => some (ret, { self with groupBuffer := groupBuffer })

/-- `submit_imported_group`. -/
def submitImportedGroup (self : LogSlidingWindow) (sourceLsn sourceScn : Nat)
    (buf : List UInt8) (answers : List ObRet) : Option (ObRet × LogSlidingWindow) :=
  if lsnIsValid sourceLsn = false ∨ scnIsValid sourceScn = false ∨
      buf.length ≤ logGroupEntryHeaderSize ∨ maxLogBufferSize < buf.length then
    some (.invalidArgument, self)
  else
    match LogGroupEntryHeader.deserialize hashes buf with
    | .error ret => some (ret, self)
    | .ok (header, body) =>
      if (logGroupEntryHeaderSize : Int) + header.groupSize ≠ buf.length then
        some (.invalidData, self)
      else
        match header.checkIntegrity hashes body with
        | none => some (.invalidData, self)
        | some groupLogChecksum =>
          let currEndLsn := self.lsnAllocator.lsn
          if currEndLsn ≠ sourceLsn then some (.stateNotMatch, self)
          else if header.maxScn ≠ sourceScn then some (.invalidData, self)
          else if header.logId ≠ self.getMaxLogId + 1 then some (.stateNotMatch, self)
          else if self.canSubmitLargerLog header.logId = false then some (.eagain, self)
          else
            match self.waitSwSlotReady header.logId with
            | none => none
            | some .success =>
              self.withLogTaskWait header.logId id fun held =>
                held.installImportedGroup hashes currEndLsn buf body header
                  groupLogChecksum answers
            | some ret => some (ret, self)

end

end LogSlidingWindow

end SeekDB
