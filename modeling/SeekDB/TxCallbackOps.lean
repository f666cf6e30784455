/-
The operations on the callback list of a transaction that visit its callbacks
(ob_tx_callback_functor.h, ob_tx_callback_list.cpp), the filling and submitting
of its log (ob_redo_log_generator.cpp, ob_mvcc_trans_ctx.cpp) and the system in
which they are called one after another.
-/
import SeekDB.TxCallbackList
import SeekDB.Execution

namespace SeekDB.TxCallbackList

/-- `calc_checksum` as the functors call it; without a checksumer it is left
out. -/
def sumFrom (checksumer : Option Nat) (iter : TxCallback) (sum : BatchChecksum) :
    BatchChecksum :=
  match checksumer with
  | some checksumScn =>
    if scnLe checksumScn iter.scn then iter.calcChecksum checksumScn sum else sum
  | none => sum

structure FastCommitState where
  needRemoveCount : Int
  lastScnForRemove : Nat
  deriving Repr, DecidableEq

/-- `ObRemoveCallbacksForFastCommitFunctor`. -/
def fastCommitFunctor (syncScn : Nat) (checksumer : Option Nat)
    (checkpointCallback : TxCallback → ObRet) : Functor FastCommitState where
  isReverse := false
  isIterEnd state iter :=
    iter.needSubmitLog || scnLt syncScn iter.scn || iter.scn == obMinScnTsNs ||
      (decide (state.needRemoveCount ≤ 0) && iter.scn != state.lastScnForRemove)
  visit state sum iter :=
    let summed := sumFrom checksumer iter sum
    if checkpointCallback iter ≠ .success then
      ⟨checkpointCallback iter, state, summed, false⟩
    else ⟨.success, ⟨state.needRemoveCount - 1, iter.scn⟩, summed, true⟩

/-- `ObRemoveSyncCallbacksWCondFunctor`.  Its state is `checksum_last_scn_`;
`release` is `rollback_callback` or `checkpoint_callback`, after
`need_remove_data_`. -/
def removeSyncFunctor (isReverse : Bool) (checksumer : Option Nat)
    (condForRemove condForStop : TxCallback → Bool) (release : TxCallback → ObRet) :
    Functor Nat where
  isReverse := isReverse
  isIterEnd _ iter := iter.needSubmitLog || iter.scn == obMaxScnTsNs || condForStop iter
  visit lastScn sum iter :=
    if (checksumer.isSome && isReverse) || iter.needSubmitLog then
      ⟨.errUnexpected, lastScn, sum, false⟩
    else
      let summed := sumFrom checksumer iter sum
      let last := if checksumer.any (scnLe · iter.scn) then iter.scn else lastScn
      if !condForRemove iter then ⟨.success, last, summed, false⟩
      else if release iter ≠ .success then ⟨release iter, last, summed, false⟩
      else ⟨.success, last, summed, true⟩

/-- `ObRemoveCallbacksWCondFunctor`, which also visits callbacks that are not
logged yet. -/
def removeFunctor (rightBound : Nat) (checksumer : Option Nat)
    (condForRemove : TxCallback → ObRet × Bool) (release : TxCallback → ObRet) :
    Functor Nat where
  isReverse := false
  isIterEnd _ iter := scnLt rightBound iter.scn
  visit lastScn sum iter :=
    let last := if checksumer.isSome then iter.scn else lastScn
    match condForRemove iter with
    | (_, true) =>
      if iter.needSubmitLog then
        if release iter ≠ .success then ⟨release iter, lastScn, sum, false⟩
        else ⟨.success, lastScn, sum, true⟩
      else
        let summed := sumFrom checksumer iter sum
        if release iter ≠ .success then ⟨release iter, lastScn, summed, false⟩
        else ⟨.success, last, summed, true⟩
    | (ret, false) =>
      if ret ≠ .success ∨ iter.needSubmitLog then ⟨ret, lastScn, sum, false⟩
      else ⟨.success, last, sumFrom checksumer iter sum, false⟩

/-- `ObSyncLogFailFunctor`. -/
def syncLogFailFunctor (logSyncFail : TxCallback → ObRet) : Functor Unit where
  isReverse := false
  isIterEnd _ _ := false
  visit _ sum iter :=
    if iter.needSubmitLog then ⟨.success, (), sum, false⟩
    else if logSyncFail iter ≠ .success then ⟨logSyncFail iter, (), sum, false⟩
    else ⟨.success, (), sum, true⟩

/-- `ObCleanUnlogCallbackFunctor`. -/
def cleanUnlogFunctor : Functor Unit where
  isReverse := false
  isIterEnd _ _ := false
  visit _ sum iter := ⟨.success, (), sum, iter.needSubmitLog⟩

/-- `ObCalcChecksumFunctor`. -/
def calcChecksumFunctor (targetScn checksumScn : Nat) : Functor Nat where
  isReverse := false
  isIterEnd _ iter := scnLt targetScn iter.scn
  visit lastScn sum iter :=
    if scnLt targetScn iter.scn then ⟨.errUnexpected, lastScn, sum, false⟩
    else ⟨.success, iter.scn, sumFrom (some checksumScn) iter sum, false⟩

variable (list : TxCallbackList) (mgr : CallbackMgr)

/-- The checksumer that a removal is given. -/
def checksumer : Option Nat := if mgr.skipChecksumCalc then none else some list.checksumScn

/-- The value of a checksum that is not allowed to be zero. -/
def nonzero (sum : BitVec 64) : BitVec 64 := if sum = 0 then 1 else sum

def ensureChecksum (scn : Nat) : TxCallbackList :=
  if mgr.skipChecksumCalc then list
  else if scnIsValid scn = false then list
  else if scn = obMinScnTsNs then list
  else if scnLt scn list.checksumScn then list
  else if scn = obMaxScnTsNs then
    { list with
      checksumScn := obMaxScnTsNs
      checksum := nonzero list.batchChecksum.calcSum.1
      batchChecksum := list.batchChecksum.calcSum.2 }
  else
    { list with
      checksumScn := scnPlus scn 1
      tmpChecksum := nonzero list.batchChecksum.calcSum.1
      batchChecksum := list.batchChecksum.calcSum.2 }

/-- The end of an operation that summed up callbacks: only a loop that was not
stopped by an error has its last number recorded. -/
def finish {σ : Type} (lastScn : σ → Nat) (done : Traversal σ) :
    ObRet × TxCallbackList :=
  if done.ret = .success then (.success, done.list.ensureChecksum mgr (lastScn done.state))
  else (done.ret, done.list)

def calcNeedRemoveCountForFastCommit : Int :=
  list.length - (mgr.fastCommitCallbackCount + 1).tdiv 2

def removeCallbacksForFastCommit (stopScn : Nat) (checkpointCallback : TxCallback → ObRet) :
    ObRet × TxCallbackList :=
  let rightBound :=
    if scnIsValid stopScn = false then list.syncScn
    else if list.syncScn ≠ obMinScnTsNs then scnMin stopScn list.syncScn
    else stopScn
  finish mgr FastCommitState.lastScnForRemove
    (list.callback mgr (fastCommitFunctor rightBound (list.checksumer mgr) checkpointCallback)
      ⟨list.calcNeedRemoveCountForFastCommit mgr, obMinScnTsNs⟩ none list.logCursor)

/-- `get_checksum_last_scn` of the functors with a condition. -/
def checksumLastScn (lastScn : Nat) : Nat :=
  if (list.checksumer mgr).isSome then lastScn else obInvalidScnVal

def removeCallbacksForRemoveMemtable (memtableSet : List Nat) (stopScn : Nat)
    (checkpointCallback : TxCallback → ObRet) : ObRet × TxCallbackList :=
  finish mgr (list.checksumLastScn mgr)
    (list.callback mgr (removeSyncFunctor false (list.checksumer mgr)
        (fun iter => decide (iter.memtable ∈ memtableSet))
        (fun iter => scnLt stopScn iter.scn) checkpointCallback)
      obMinScnTsNs none none)

/-- The condition of `remove_callbacks_for_rollback_to`; branch 0 stands for all
branches. -/
def rollbackCond (toSeq fromSeq : TxSeq) (iter : TxCallback) : ObRet × Bool :=
  if toSeq.getBranch = 0 ∨ toSeq.getBranch = iter.seqNo.getBranch then
    if fromSeq.getSeq ≤ iter.seqNo.getSeq then (.errUnexpected, false)
    else (.success, decide (toSeq.getSeq < iter.seqNo.getSeq))
  else (.success, false)

/-- Removals of a rollback to a savepoint of one branch are counted apart. -/
def countBranch {σ : Type} (toSeq : TxSeq) (done : Traversal σ) : Traversal σ :=
  if done.ret = .success ∧ toSeq.getBranch ≠ 0 then
    { done with
      list := { done.list with
        branchRemoved := done.list.branchRemoved + done.removeCnt } }
  else done

def removeCallbacksForRollbackTo (toSeq fromSeq : TxSeq) (replayScn : Nat)
    (rollbackCallback : TxCallback → ObRet) : ObRet × TxCallbackList :=
  let rightBound := if scnIsValid replayScn then replayScn else obMaxScnTsNs
  finish mgr (list.checksumLastScn mgr)
    (countBranch toSeq (list.callback mgr
        (removeFunctor rightBound (list.checksumer mgr) (rollbackCond toSeq fromSeq)
          rollbackCallback)
        obMinScnTsNs none none))

/-- `ObCallbackScope`. -/
structure CallbackScope where
  start : Nat
  stop : Nat
  cnt : Int
  dataSize : Int
  deriving Repr, DecidableEq

/-- The callbacks of a scope: from its start to its end, both included. -/
def scopeCallbacks (scope : CallbackScope) : List TxCallback :=
  PointerList.between TxCallback.addr list.callbacks
    (list.getPrev (some scope.start)) (list.getNext (some scope.stop))

/-- The run of callbacks that `fill_log` puts into one log: from the log cursor
on, as long as `ObFillRedoLogFunctor` succeeds. -/
def fillLog (fillRedo : TxCallback → ObRet) : List TxCallback :=
  match list.logCursor with
  | none => []
  | some cursor =>
    (PointerList.after TxCallback.addr list.callbacks (list.getPrev (some cursor))).takeWhile
      (fun iter => iter.needSubmitLog && decide (fillRedo iter = .success))

/-- The scope of a run of callbacks. -/
def scopeOf (run : List TxCallback) : Option CallbackScope :=
  match run.head?, run.getLast? with
  | some first, some last =>
    some ⟨first.addr, last.addr, run.length, (run.map TxCallback.dataSize).sum⟩
  | _, _ => none

def submitLogSucc (scope : CallbackScope) : TxCallbackList :=
  { list with
    logCursor := list.getNext (some scope.stop)
    logged := list.logged + scope.cnt
    loggedDataSize := list.loggedDataSize + scope.dataSize }

/-- `ObTransCallbackMgr::log_submitted` for the scope of one list. -/
def logSubmitted (scope : CallbackScope) (scn : Nat) : TxCallbackList :=
  let submitted := (list.scopeCallbacks scope).map TxCallback.addr
  let marked : TxCallbackList :=
    { list with
      callbacks := list.callbacks.map (fun callback =>
        if callback.addr ∈ submitted then callback.logSubmittedCb scn else callback) }
  marked.submitLogSucc scope

def syncLogSucc (scn : Nat) (syncCnt : Int) : TxCallbackList :=
  { list with
    syncScn := scn
    synced := list.synced + syncCnt }

def syncLogFail (scope : CallbackScope) (logSyncFail : TxCallback → ObRet) :
    ObRet × TxCallbackList :=
  let done := list.callback mgr (syncLogFailFunctor logSyncFail) ()
    (list.getPrev (some scope.start)) (list.getNext (some scope.stop))
  (done.ret, done.list)

def cleanUnlogCallbacks : ObRet × TxCallbackList :=
  match list.logCursor with
  | none => (.success, list)
  | some cursor =>
    let done := list.callback mgr cleanUnlogFunctor () (list.getPrev (some cursor)) none
    (done.ret, done.list)

def replaySucc (scn : Nat) : TxCallbackList :=
  { list with syncScn := scnIncUpdate list.syncScn scn }

/-- `replay_fail` takes the callbacks of the failed log off again, newest first,
and with them their part of the counters. -/
def replayFail (scn : Nat) (serialReplay : Bool) (rollbackCallback : TxCallback → ObRet) :
    TxCallbackList :=
  let start := if serialReplay then list.parallelStartPos else none
  let stop := if serialReplay then none
    else if list.parallelStartPos.isSome then list.getPrev list.parallelStartPos else none
  let done := list.callback mgr
    (removeSyncFunctor true none (fun iter => decide (scn = iter.scn))
      (fun iter => decide (scn ≠ iter.scn)) rollbackCallback)
    obMinScnTsNs start stop
  { done.list with
    appended := done.list.appended - done.removeCnt
    removed := done.list.removed - done.removeCnt
    logged := done.list.logged - done.removeCnt
    synced := done.list.synced - done.removeCnt }

def txCalcChecksumBeforeScn (scn : Nat) : ObRet × TxCallbackList :=
  let stopScn := if scn = obMaxScnTsNs then list.syncScn else scn
  finish mgr id
    (list.callback mgr (calcChecksumFunctor stopScn list.checksumScn) obMinScnTsNs none none)

def txCalcChecksumAll : ObRet × TxCallbackList :=
  if list.checksumScn = obMaxScnTsNs ∧ list.checksum ≠ 0 then (.success, list)
  else
    finish mgr (fun _ => obMaxScnTsNs)
      (list.callback mgr (calcChecksumFunctor obMaxScnTsNs list.checksumScn) obMinScnTsNs none none)

/-! The calls on one list, one after another. -/

inductive Event
  | append (callback : TxCallback) (mode : AppendMode) (beforeAppend : ObRet)
  | appendBatch (batch : List TxCallback) (length : Int) (mode : AppendMode)
      (beforeAppend : TxCallback → ObRet)
  | submitLog (scope : CallbackScope) (scn : Nat)
  | syncLogSucc (scn : Nat) (syncCnt : Int)
  | fastCommit (mgr : CallbackMgr) (stopScn : Nat) (checkpointCallback : TxCallback → ObRet)
  | removeMemtable (mgr : CallbackMgr) (memtableSet : List Nat) (stopScn : Nat)
      (checkpointCallback : TxCallback → ObRet)
  | rollbackTo (mgr : CallbackMgr) (toSeq fromSeq : TxSeq) (replayScn : Nat)
      (rollbackCallback : TxCallback → ObRet)
  | syncLogFail (mgr : CallbackMgr) (scope : CallbackScope)
      (logSyncFail : TxCallback → ObRet)
  | cleanUnlog (mgr : CallbackMgr)
  | replaySucc (scn : Nat)
  | replayFail (mgr : CallbackMgr) (scn : Nat) (serialReplay : Bool)
      (rollbackCallback : TxCallback → ObRet)
  | calcChecksumBefore (mgr : CallbackMgr) (scn : Nat)
  | calcChecksumAll (mgr : CallbackMgr)

def call (list : TxCallbackList) : Event → ObRet × TxCallbackList
  | .append callback mode beforeAppend => list.appendCallback callback mode beforeAppend
  | .appendBatch batch length mode beforeAppend =>
    list.appendCallbacks batch length mode beforeAppend
  | .submitLog scope scn => (.success, list.logSubmitted scope scn)
  | .syncLogSucc scn syncCnt => (.success, list.syncLogSucc scn syncCnt)
  | .fastCommit mgr stopScn checkpoint =>
    list.removeCallbacksForFastCommit mgr stopScn checkpoint
  | .removeMemtable mgr memtableSet stopScn checkpoint =>
    list.removeCallbacksForRemoveMemtable mgr memtableSet stopScn checkpoint
  | .rollbackTo mgr toSeq fromSeq replayScn rollback =>
    list.removeCallbacksForRollbackTo mgr toSeq fromSeq replayScn rollback
  | .syncLogFail mgr scope logSyncFail => list.syncLogFail mgr scope logSyncFail
  | .cleanUnlog mgr => list.cleanUnlogCallbacks mgr
  | .replaySucc scn => (.success, list.replaySucc scn)
  | .replayFail mgr scn serialReplay rollback =>
    (.success, list.replayFail mgr scn serialReplay rollback)
  | .calcChecksumBefore mgr scn => list.txCalcChecksumBeforeScn mgr scn
  | .calcChecksumAll mgr => list.txCalcChecksumAll mgr

/-- The addresses of the linked callbacks. -/
def addrs (list : TxCallbackList) : List Nat := list.callbacks.map TxCallback.addr

/-- A callback that is not logged yet has the number it was constructed with, a
replayed one the number of its log. -/
def CarriesScn (mode : AppendMode) (callback : TxCallback) : Prop :=
  callback.scn = obMaxScnTsNs ↔ mode.forReplay = false

/-- What a caller has to keep to: callbacks are appended once, a chain is as long
as stated, a log that was submitted was filled from the log cursor on, and a
scope is made of linked callbacks. -/
def Permitted (list : TxCallbackList) : Event → Prop
  | .append callback mode _ => callback.addr ∉ list.addrs ∧ CarriesScn mode callback
  | .appendBatch batch length mode _ =>
    (batch.map TxCallback.addr).Nodup ∧
      (∀ item ∈ batch, item.addr ∉ list.addrs ∧ CarriesScn mode item) ∧
      length = batch.length
  | .submitLog scope _ => ∃ fillRedo, scopeOf (list.fillLog fillRedo) = some scope
  | .syncLogFail _ scope _ => scope.start ∈ list.addrs ∧ scope.stop ∈ list.addrs
  | _ => True

def Step (list : TxCallbackList) (event : Event) (next : TxCallbackList) : Prop :=
  list.Permitted event ∧ next = (list.call event).2

end SeekDB.TxCallbackList
