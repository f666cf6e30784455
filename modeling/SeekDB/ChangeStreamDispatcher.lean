/-
The dispatcher of the change stream and the worker threads that finish its
batches (ob_change_stream_dispatcher.cpp, ob_change_stream_worker.cpp).

One step is one access to what the threads share, but for two: the add to
`task_finish_` is one step with the read of `task_count_` behind it, and
`dec_active_batch_count` with the deletion of the batch behind it.  Batches are
named by their place in the list of all batches ever pushed; a deleted one stays in
the list.  The ring
is the list of all entries it was given, those before `beginSn` are popped.
Outcomes that the model does not compute (allocations, plugins, pushes, the
transaction of a batch, timeouts) are chosen by the events.
-/
import SeekDB.ChangeStreamRows

universe u

namespace SeekDB.ChangeStream

/-- `CS_AGGREGATE_ROW_THRESHOLD`. -/
def aggregateRowThreshold : Nat := 1000

inductive SubTaskPhase where
  | unpushed
  | queued
  /-- About to add to `task_fail_`. -/
  | marking
  /-- About to add to `task_finish_`. -/
  | processed
  | finished
  deriving Repr, DecidableEq

/-- Where a batch is; from `started` on it is finished by one thread. -/
inductive BatchPhase where
  | running
  /-- The dispatcher itself was the last finisher. -/
  | abandoned
  | started
  | spin (anyFail : Bool)
  | spinPast (anyFail : Bool)
  | spinEpoch (anyFail : Bool)
  | spinEnd (anyFail : Bool)
  | commit
  | updateScn
  | release (popped : Nat)
  | incEpoch
  | cleanup
  | deleted
  deriving Repr, DecidableEq

/-- `ObCSExecCtx` while transactions are added to it. -/
structure Building (ρ : Type u) where
  batchSn : Nat
  txList : List (TxInfo ρ)
  subTasks : List (List (CSRow ρ))
  rowCount : Nat
  refreshScn : Nat
  schemaVersion : Int
  deriving Repr, DecidableEq

/-- `ObCSExecCtx` once its subtasks are pushed; `committed` records that its
transaction ended well. -/
structure Batch (ρ : Type u) where
  batchSn : Nat
  txList : List (TxInfo ρ)
  epoch : Nat
  refreshScn : Nat
  taskCount : Nat
  taskFinish : Nat
  taskFail : Nat
  subTasks : List SubTaskPhase
  phase : BatchPhase
  committed : Bool
  deriving Repr, DecidableEq

/-- Where the dispatcher thread is. -/
inductive DispatcherPhase (ρ : Type u) where
  | top
  | recoverWait
  | recoverReload
  | recoverCursor
  | recoverEpoch
  | check
  | aggregate (ctx : Building ρ)
  | skip (ctx : Building ρ)
  | skipPop (ctx : Building ρ)
  | prepare (ctx : Building ρ)
  | push (batch pushed : Nat)
  | markUnpushed (batch pushed : Nat)
  | finishUnpushed (batch pushed : Nat)
  | incEpoch (batch : Nat)
  | decActive (batch : Nat)
  deriving Repr, DecidableEq

/-- `applied` lists the transactions of committed batches, each with its batch, and the
skipped ones. -/
structure Pipeline (ρ : Type u) where
  ring : List (TxInfo ρ)
  beginSn : Nat
  dispatchSn : Nat
  nextCommitSn : Nat
  epoch : Nat
  dispatcherEpoch : Nat
  activeBatchCount : Nat
  refreshScn : Nat
  persistedScn : Nat
  thread : DispatcherPhase ρ
  batches : List (Batch ρ)
  fatal : Bool
  applied : List (TxInfo ρ × Option Nat)
  deriving Repr, DecidableEq

/-- A step of the finishing thread on what it shares with the others. -/
inductive Effect where
  | none
  | incEpoch
  | commit
  | updateScn
  | pop
  | advance
  | decActive
  | fatal
  deriving Repr, DecidableEq

variable {ρ : Type u}

namespace Batch

/-- `do_finish_batch_` with the step it takes next; `ok` tells whether the plugins and
the transaction commit.  A rollback changes nothing shared and is no step of its own. -/
def finish (batch : Batch ρ) (nextCommitSn epoch persistedScn : Nat) (ringEmpty ok : Bool) :
    Option (BatchPhase × Effect) :=
  match batch.phase with
  | .running => none
  | .abandoned => none
  | .deleted => none
  | .started =>
    if batch.epoch ≠ epoch then some (.cleanup, .none)
    else some (.spin (decide (0 < batch.taskFail)), .none)
  | .spin anyFail =>
    if nextCommitSn ≠ batch.batchSn then some (.spinPast anyFail, .none)
    else some (.spinEnd anyFail, .none)
  | .spinPast anyFail =>
    if batch.batchSn < nextCommitSn then some (.spinPast anyFail, .fatal)
    else some (.spinEpoch anyFail, .none)
  | .spinEpoch anyFail =>
    if batch.epoch ≠ epoch then some (.cleanup, .none) else some (.spin anyFail, .none)
  | .spinEnd anyFail =>
    if batch.epoch ≠ epoch then some (.cleanup, .none)
    else if anyFail then some (.incEpoch, .none)
    else some (.commit, .none)
  | .commit =>
    if ok ∧ persistedScn ≤ batch.refreshScn then some (.updateScn, .commit)
    else some (.incEpoch, .none)
  | .updateScn => some (.release 0, .updateScn)
  | .release popped =>
    if popped < batch.txList.length then
      if ringEmpty then some (.release popped, .fatal) else some (.release (popped + 1), .pop)
    else some (.cleanup, .advance)
  | .incEpoch => some (.cleanup, .incEpoch)
  | .cleanup => some (.deleted, .decActive)

/-- The batch once `count` more of its subtasks count as finished; the last finisher
goes on in `last`. -/
def addFinished (batch : Batch ρ) (count : Nat) (last : BatchPhase) : Batch ρ :=
  { batch with
    taskFinish := batch.taskFinish + count
    phase := if batch.taskFinish + count = batch.taskCount then last else batch.phase }

end Batch

def Building.toBatch (ctx : Building ρ) (epoch : Nat) : Batch ρ :=
  { batchSn := ctx.batchSn
    txList := ctx.txList
    epoch := epoch
    refreshScn := ctx.refreshScn
    taskCount := ctx.subTasks.length
    taskFinish := 0
    taskFail := 0
    subTasks := List.replicate ctx.subTasks.length .unpushed
    phase := .running
    committed := false }

namespace Pipeline

def init (persistedScn : Nat) : Pipeline ρ :=
  { ring := [], beginSn := 0, dispatchSn := 0, nextCommitSn := 0, epoch := 0
    dispatcherEpoch := 0, activeBatchCount := 0, refreshScn := persistedScn
    persistedScn := persistedScn, thread := .top, batches := [], fatal := false
    applied := [] }

def pop (s : Pipeline ρ) : Pipeline ρ :=
  if s.beginSn < s.ring.length then { s with beginSn := s.beginSn + 1 } else s

def modifyBatch (s : Pipeline ρ) (b : Nat) (change : Batch ρ → Batch ρ) : Pipeline ρ :=
  { s with batches := s.batches.modify b change }

/-! ### The dispatcher thread -/

/-- The end of the loop that adds transactions. -/
def close (s : Pipeline ρ) (ctx : Building ρ) : Pipeline ρ :=
  { s with thread := if ctx.txList = [] then .top else .prepare ctx }

/-- The cleanup after an error before the batch is active. -/
def rewind (s : Pipeline ρ) (ctx : Building ρ) : Pipeline ρ :=
  { s with dispatchSn := ctx.batchSn, thread := .top }

/-- One round of the loop that adds transactions. -/
def aggregate (s : Pipeline ρ) (ctx : Building ρ) (ok : Bool) : Pipeline ρ :=
  if aggregateRowThreshold ≤ ctx.rowCount then s.close ctx
  else if s.dispatchSn < s.beginSn then s.rewind ctx
  else
    match s.ring[s.dispatchSn]? with
    | none => if ok ∧ 0 < s.activeBatchCount then s else s.close ctx
    | some tx =>
      if tx.commitVersion ≤ s.refreshScn then { s with thread := .skip ctx }
      else
        let schemaVersion :=
          if ctx.schemaVersion ≤ 0 then tx.schemaVersion else ctx.schemaVersion
        if tx.schemaVersion ≠ schemaVersion then s.close ctx
        else if ok then
          let slices := addTxRedoToSubtasks tx ctx.subTasks
          { s with
            dispatchSn := s.dispatchSn + 1
            thread := .aggregate
              { batchSn := ctx.batchSn
                txList := ctx.txList ++ [tx]
                subTasks := slices.subTasks
                rowCount := ctx.rowCount + slices.rowCount
                refreshScn := max ctx.refreshScn tx.commitVersion
                schemaVersion := schemaVersion } }
        else s.rewind ctx

/-- The compare-and-swap of the skip branch. -/
def skip (s : Pipeline ρ) (ctx : Building ρ) : Pipeline ρ :=
  if s.nextCommitSn = s.dispatchSn then
    { s with
      nextCommitSn := s.dispatchSn + 1
      applied := s.applied ++ (s.ring[s.dispatchSn]?.map fun tx => (tx, none)).toList
      thread := .skipPop ctx }
  else s.close ctx

def skipPop (s : Pipeline ρ) (ctx : Building ρ) : Pipeline ρ :=
  { s.pop with
    dispatchSn := s.dispatchSn + 1
    thread := .aggregate
      (if ctx.txList = [] then { ctx with batchSn := s.dispatchSn + 1 } else ctx) }

/-- The batch becomes active with all its subtasks still to be pushed. -/
def activate (s : Pipeline ρ) (ctx : Building ρ) : Pipeline ρ :=
  { s with
    activeBatchCount := s.activeBatchCount + 1
    batches := s.batches ++ [ctx.toBatch s.dispatcherEpoch]
    thread := .push s.batches.length 0 }

def finishUnpushed (s : Pipeline ρ) (b pushed : Nat) : Pipeline ρ :=
  match s.batches[b]? with
  | none => s
  | some batch =>
    let unpushed := batch.taskCount - pushed
    { s.modifyBatch b fun batch =>
        { batch.addFinished unpushed .abandoned with
          subTasks := batch.subTasks.take pushed ++ List.replicate unpushed .finished } with
      thread :=
        if batch.taskFinish + unpushed = batch.taskCount then .incEpoch b else .top }

/-- One step of `run1` and `do_dispatch_`. -/
def dispatch (executorCount : Nat) (s : Pipeline ρ) (ok : Bool) : Pipeline ρ :=
  match s.thread with
  | .top =>
    if s.dispatcherEpoch ≠ s.epoch then { s with thread := .recoverWait }
    else if s.ring.length ≤ s.dispatchSn then s
    else { s with thread := .check }
  | .recoverWait =>
    if 0 < s.activeBatchCount then s else { s with thread := .recoverReload }
  | .recoverReload =>
    { s with
      refreshScn := if ok then s.persistedScn else s.refreshScn
      thread := .recoverCursor }
  | .recoverCursor => { s with dispatchSn := s.nextCommitSn, thread := .recoverEpoch }
  | .recoverEpoch => { s with dispatcherEpoch := s.epoch, thread := .top }
  | .check =>
    if s.dispatcherEpoch ≠ s.epoch ∨ executorCount = 0 ∨ ok = false then
      { s with thread := .top }
    else
      { s with
        thread := .aggregate
          { batchSn := s.dispatchSn, txList := []
            subTasks := List.replicate executorCount [], rowCount := 0, refreshScn := 0
            schemaVersion := 0 } }
  | .aggregate ctx => s.aggregate ctx ok
  | .skip ctx => s.skip ctx
  | .skipPop ctx => s.skipPop ctx
  | .prepare ctx => if ok then s.activate ctx else s.rewind ctx
  | .push b pushed =>
    if (s.batches[b]?.map Batch.taskCount).getD 0 ≤ pushed then { s with thread := .top }
    else if ok then
      { s.modifyBatch b fun batch =>
          { batch with subTasks := batch.subTasks.set pushed .queued } with
        thread := .push b (pushed + 1) }
    else { s with thread := .markUnpushed b pushed }
  | .markUnpushed b pushed =>
    { s.modifyBatch b fun batch => { batch with taskFail := batch.taskFail + 1 } with
      thread := .finishUnpushed b pushed }
  | .finishUnpushed b pushed => s.finishUnpushed b pushed
  | .incEpoch b => { s with epoch := s.epoch + 1, thread := .decActive b }
  | .decActive b =>
    { s.modifyBatch b fun batch => { batch with phase := .deleted } with
      activeBatchCount := s.activeBatchCount - 1
      thread := .top }

/-! ### The worker threads -/

/-- A subtask of a batch in the given phase moves on. -/
def moveSubTask (s : Pipeline ρ) (b i : Nat) (phase : SubTaskPhase) (move : Batch ρ → Batch ρ) :
    Option (Pipeline ρ) :=
  match s.batches[b]? with
  | none => none
  | some batch =>
    if batch.subTasks[i]? = some phase then some (s.modifyBatch b move) else none

/-- The first half of `process_sub_task`. -/
def startSubTask (s : Pipeline ρ) (b i : Nat) (pluginFails : Bool) : Option (Pipeline ρ) :=
  s.moveSubTask b i .queued fun batch =>
    let next :=
      if batch.epoch ≠ s.epoch then .marking
      else if batch.taskFail = 0 ∧ pluginFails then .marking
      else .processed
    { batch with subTasks := batch.subTasks.set i next }

/-- The start of `handle_drop`. -/
def dropSubTask (s : Pipeline ρ) (b i : Nat) : Option (Pipeline ρ) :=
  s.moveSubTask b i .queued fun batch =>
    { batch with subTasks := batch.subTasks.set i .marking }

def markSubTask (s : Pipeline ρ) (b i : Nat) : Option (Pipeline ρ) :=
  s.moveSubTask b i .marking fun batch =>
    { batch with
      taskFail := batch.taskFail + 1
      subTasks := batch.subTasks.set i .processed }

/-- The gate that the last finisher passes. -/
def finishSubTask (s : Pipeline ρ) (b i : Nat) : Option (Pipeline ρ) :=
  s.moveSubTask b i .processed fun batch =>
    { batch.addFinished 1 .started with subTasks := batch.subTasks.set i .finished }

/-- What an effect does outside the batch; `release_batch` pops, then advances. -/
def apply (s : Pipeline ρ) (b : Nat) (batch : Batch ρ) : Effect → Pipeline ρ
  | .none => s
  | .incEpoch => { s with epoch := s.epoch + 1 }
  | .commit =>
    { s with
      persistedScn := batch.refreshScn
      applied := s.applied ++ batch.txList.map fun tx => (tx, some b) }
  | .updateScn => { s with refreshScn := max s.refreshScn batch.refreshScn }
  | .pop => s.pop
  | .advance => { s with nextCommitSn := batch.batchSn + batch.txList.length }
  | .decActive => { s with activeBatchCount := s.activeBatchCount - 1 }
  | .fatal => { s with fatal := true }

def finishBatch (s : Pipeline ρ) (b : Nat) (ok : Bool) : Option (Pipeline ρ) :=
  match s.batches[b]? with
  | none => none
  | some batch =>
    (batch.finish s.nextCommitSn s.epoch s.persistedScn
        (decide (s.ring.length ≤ s.beginSn)) ok).map fun (phase, effect) =>
      (s.apply b batch effect).modifyBatch b fun batch =>
        { batch with
          phase := phase
          committed := batch.committed || decide (effect = .commit) }

end Pipeline

inductive PipeEvent (ρ : Type u) where
  | push (tx : TxInfo ρ)
  | updateRefreshScn (scn : Nat)
  | incEpoch
  | dispatch (ok : Bool)
  | startSubTask (b i : Nat) (pluginFails : Bool)
  | dropSubTask (b i : Nat)
  | markSubTask (b i : Nat)
  | finishSubTask (b i : Nat)
  | finishBatch (b : Nat) (ok : Bool)

/-- One step of the threads.  The fetcher pushes and raises `refresh_scn_`, and any
caller may raise the epoch. -/
def Pipeline.step (executorCount : Nat) (s : Pipeline ρ) : PipeEvent ρ → Option (Pipeline ρ)
  | .push tx => some { s with ring := s.ring ++ [tx] }
  | .updateRefreshScn scn => some { s with refreshScn := max s.refreshScn scn }
  | .incEpoch => some { s with epoch := s.epoch + 1 }
  | .dispatch ok => some (s.dispatch executorCount ok)
  | .startSubTask b i pluginFails => s.startSubTask b i pluginFails
  | .dropSubTask b i => s.dropSubTask b i
  | .markSubTask b i => s.markSubTask b i
  | .finishSubTask b i => s.finishSubTask b i
  | .finishBatch b ok => s.finishBatch b ok

end SeekDB.ChangeStream
