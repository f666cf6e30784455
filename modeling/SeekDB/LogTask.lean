/-
One slot of the sliding window: the group that is being assembled
(log_task.h, log_task.cpp).

The state bits of `LogSimpleBitMap` are Boolean fields.  The functions marked
"caller need hold lock" in the source and the atomic updates are the steps that
other modules interleave.  Time stamps are left out.
-/
import SeekDB.LsnAllocator
import SeekDB.LogGroupEntry

namespace SeekDB

structure LogTaskHeaderInfo where
  beginLsn : Nat
  endLsn : Nat
  logId : Int
  minScn : Nat
  maxScn : Nat
  /-- Length without the group header. -/
  dataLen : Int
  committedEndLsn : Nat
  dataChecksum : BitVec 64
  accumChecksum : BitVec 64
  isPaddingLog : Bool
  deriving Repr, DecidableEq

def LogTaskHeaderInfo.reset : LogTaskHeaderInfo where
  beginLsn := logInvalidLsnVal
  endLsn := logInvalidLsnVal
  logId := obInvalidLogId
  minScn := obInvalidScnVal
  maxScn := obInvalidScnVal
  dataLen := 0
  committedEndLsn := logInvalidLsnVal
  dataChecksum := -1
  accumChecksum := -1
  isPaddingLog := false

structure LogTask where
  isValid : Bool
  submitLogExist : Bool
  isFreezed : Bool
  preSubmit : Bool
  preSlide : Bool
  header : LogTaskHeaderInfo
  refCnt : Int
  logCnt : Nat
  deriving Repr, DecidableEq

namespace LogTask

def reset : LogTask where
  isValid := false
  submitLogExist := false
  isFreezed := false
  preSubmit := false
  preSlide := false
  header := .reset
  refCnt := 0
  logCnt := 0

instance : Inhabited LogTask := ⟨reset⟩

def incUpdateMaxScn (task : LogTask) (scn : Nat) : LogTask :=
  { task with
    header := { task.header with maxScn := scnIncUpdate task.header.maxScn scn } }

def updateDataLen (task : LogTask) (dataLen : Int) : LogTask :=
  { task with header := { task.header with dataLen := task.header.dataLen + dataLen } }

def setEndLsn (task : LogTask) (endLsn : Nat) : LogTask :=
  { task with header := { task.header with endLsn := endLsn } }

/-- `ref`; freezing does not count as a log entry. -/
def ref (task : LogTask) (val : Int) (isAppendLog : Bool) : LogTask :=
  { task with
    refCnt := task.refCnt + val
    logCnt := task.logCnt + isAppendLog.toNat }

/-- The first entry of the group fills in the header.  Other entries may
already have added to `data_len_` and `max_scn_`. -/
def setInitialHeaderInfo (task : LogTask) (info : LogTaskHeaderInfo) :
    ObRet × LogTask :=
  if task.isValid then (.errUnexpected, task)
  else
    let filled : LogTask :=
      { task with
        header :=
          { task.header with
            beginLsn := info.beginLsn
            logId := info.logId
            isPaddingLog := info.isPaddingLog
            minScn := info.minScn } }
    (.success,
      { (filled.updateDataLen info.dataLen).incUpdateMaxScn info.maxScn with
        isValid := true })

def updateHeaderInfo (task : LogTask) (committedEndLsn : Nat) (accumChecksum : BitVec 64) :
    ObRet × LogTask :=
  if lsnIsValid committedEndLsn = false then (.invalidArgument, task)
  else if task.isValid = false then (.errUnexpected, task)
  else (.success,
    { task with
      header :=
        { task.header with
          committedEndLsn := committedEndLsn
          accumChecksum := accumChecksum } })

/-- `set_group_header`: the header of a group that was assembled elsewhere. -/
def setGroupHeader (task : LogTask) (lsn scn : Nat) (header : LogGroupEntryHeader) :
    ObRet × LogTask :=
  if lsnIsValid lsn = false ∨ header.isValid = false then (.invalidArgument, task)
  else if task.isValid then (.stateNotMatch, task)
  else (.success,
    { task with
      isValid := true
      header :=
        { task.header with
          beginLsn := lsn
          endLsn := u64 (lsn + logGroupEntryHeaderSize + header.groupSize.toNat)
          logId := header.logId
          isPaddingLog := header.isPaddingLog
          minScn := scn
          maxScn := header.maxScn
          dataLen := header.groupSize
          committedEndLsn := header.committedEndLsn
          accumChecksum := header.accumulatedChecksum } })

def setGroupLogChecksum (task : LogTask) (dataChecksum : BitVec 64) : LogTask :=
  { task with header := { task.header with dataChecksum := dataChecksum } }

def setFreezed (task : LogTask) : LogTask := { task with isFreezed := true }

/-- `try_freeze`.  The length of the group, now known, is taken off the
reference count to which every filled entry adds its size. -/
def tryFreeze (task : LogTask) (endLsn : Nat) : ObRet × LogTask :=
  if task.isFreezed then (.success, task)
  else if lsnIsValid endLsn = false then (.invalidArgument, task)
  else if task.isValid = false then (.eagain, task)
  else if endLsn ≤ task.header.beginLsn then (.invalidArgument, task)
  else
    let totalLen : Int := endLsn - task.header.beginLsn
    (.success, { (task.ref (0 - (totalLen - logGroupEntryHeaderSize)) false).setEndLsn endLsn
        with isFreezed := true })

def tryFreezeByMyself (task : LogTask) : ObRet × LogTask :=
  if lsnIsValid task.header.endLsn = false then (.eagain, task)
  else task.tryFreeze task.header.endLsn

def tryPreSubmit (task : LogTask) : Bool × LogTask :=
  if task.isFreezed ∧ task.refCnt = 0 then
    (!task.preSubmit, { task with preSubmit := true })
  else (false, task)

def resetPreSubmit (task : LogTask) : LogTask := { task with preSubmit := false }

def setSubmitLogExist (task : LogTask) : Bool × LogTask :=
  (!task.submitLogExist, { task with submitLogExist := true })

def tryPreSlide (task : LogTask) : Bool × LogTask :=
  (!task.preSlide, { task with preSlide := true })

def resetPreSlide (task : LogTask) : LogTask := { task with preSlide := false }

def canBeSlid (task : LogTask) : Bool := task.preSlide

theorem tryFreeze_cases (task : LogTask) (endLsn : Nat) : (task.tryFreeze endLsn).2 = task ∨
      (task.isFreezed = false ∧ task.isValid = true ∧
        task.header.beginLsn < endLsn ∧ lsnIsValid endLsn = true ∧
        (task.tryFreeze endLsn).2 =
          { task with
            isFreezed := true
            refCnt := task.refCnt -
              ((endLsn : Int) - task.header.beginLsn - logGroupEntryHeaderSize)
            header := { task.header with endLsn := endLsn } }) := by
  unfold tryFreeze
  by_cases hfreezed : task.isFreezed = true
  · simp [hfreezed]
  rw [if_neg hfreezed]
  by_cases hlsn : lsnIsValid endLsn = false
  · simp [hlsn]
  rw [if_neg hlsn]
  by_cases hvalid : task.isValid = false
  · simp [hvalid]
  rw [if_neg hvalid]
  by_cases hle : endLsn ≤ task.header.beginLsn
  · simp [hle]
  rw [if_neg hle]
  refine .inr ⟨by simpa using hfreezed, by simpa using hvalid, by omega,
    by simpa using hlsn, ?_⟩
  simp only [ref, setEndLsn, Bool.toNat_false, Nat.add_zero, LogTask.mk.injEq, true_and, and_true]
  omega

end LogTask

end SeekDB
