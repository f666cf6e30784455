/-
The log consumer of the change stream (ob_change_stream_fetcher.cpp): log blocks
are taken apart by transaction, committed transactions go to the ring of the
dispatcher.

Redo buffers are the entries they hold.  The map `tx_info_` is the list of its
values; the ring holds the ids of the transactions, whose infos stay in the map
until they are released.  Which allocations and pushes succeed is part of the
log entry that needs them.  Statistics and the mode without async-index tables
are left out.
-/
import SeekDB.TxUndo

universe u

namespace SeekDB.ChangeStream

variable {ρ : Type u}

inductive MutatorType where
  | row
  | tableLock
  | rowExtInfo
  deriving Repr, DecidableEq

/-- One entry of a redo buffer; `row` stands for the row images and their flags. -/
structure MutatorEntry (ρ : Type u) where
  mutatorType : MutatorType
  tabletId : Nat
  seqNo : TxSeq
  /-- The integer in front of the rowkey, if the rowkey is not empty. -/
  rowkey : Option Int
  row : ρ
  deriving Repr, DecidableEq

/-- `ObCSRedoRecord`. -/
structure RedoRecord (ρ : Type u) where
  redoLen : Nat
  entries : List (MutatorEntry ρ)
  deriving Repr, DecidableEq

/-- `ObCSTxInfo`; a rollback range is the pair (`to`, `from`). -/
structure TxInfo (ρ : Type u) where
  txId : Nat
  commitVersion : Nat
  startLsn : Nat
  schemaVersion : Int
  isDdl : Bool
  rollbackList : List (TxSeq × TxSeq)
  redoList : List (RedoRecord ρ)
  deriving Repr, DecidableEq

structure Fetcher (ρ : Type u) where
  currentLsn : Nat
  currentScn : Nat
  currentSchemaVersion : Int
  txInfo : List (TxInfo ρ)
  /-- The entries `tx_ring_` was given, in order. -/
  ring : List Nat
  deriving Repr, DecidableEq

/-- The logs of a transaction. -/
inductive TxLog (ρ : Type u) where
  | redo (record : RedoRecord ρ)
  | multiDataSource (ddlTrans : Bool)
  /-- No version in the log stands for the scn of the log. -/
  | commit (commitVersion : Option Nat)
  | abort
  | rollbackTo (fromSeq toSeq : TxSeq)
  | other

/-- A log of a block, with the calls that succeed while it is handled. -/
structure TxLogEntry (ρ : Type u) where
  log : TxLog ρ
  getNextLog : Bool := true
  deserializeLogBody : Bool := true
  allocTxInfo : Bool := true
  allocRedoBuf : Bool := true
  pushBack : Bool := true
  pushRing : Bool := true

/-- What the fetch loop sees of a log entry. -/
inductive LogBlock (ρ : Type u) where
  /-- No transaction log, or one without async-index rows. -/
  | skipped
  /-- The logs of a transaction; `readable` tells whether both headers can be read. -/
  | trans (txId : Nat) (readable : Bool) (entries : List (TxLogEntry ρ))

variable {change : TxInfo ρ → TxInfo ρ}

namespace Fetcher

def maxRedoMutatorSize : Nat := 64 * 1024 * 1024

def allDdlOperationTid : Nat := 5

def find (f : Fetcher ρ) (txId : Nat) : Option (TxInfo ρ) :=
  f.txInfo.find? fun info => info.txId == txId

def erase (f : Fetcher ρ) (txId : Nat) : Fetcher ρ :=
  { f with txInfo := f.txInfo.filter fun info => info.txId != txId }

def update (f : Fetcher ρ) (txId : Nat) (change : TxInfo ρ → TxInfo ρ) : Fetcher ρ :=
  { f with
    txInfo := f.txInfo.map fun info => if info.txId = txId then change info else info }

/-- `get_or_create_tx_info_`; the second component tells whether it succeeded. -/
def getOrCreateTxInfo (f : Fetcher ρ) (txId lsn : Nat) (alloc : Bool) : Fetcher ρ × Bool :=
  match f.find txId with
  | some _ => (f, true)
  | none =>
    if alloc then
      ({ f with
          txInfo :=
            { txId := txId, commitVersion := 0, startLsn := lsn, schemaVersion := 0,
              isDdl := false, rollbackList := [], redoList := [] } :: f.txInfo }, true)
    else (f, false)

def handleRedoLog (f : Fetcher ρ) (txId : Nat) (record : RedoRecord ρ) (lsn : Nat)
    (entry : TxLogEntry ρ) : Fetcher ρ × Bool :=
  if record.redoLen = 0 ∨ maxRedoMutatorSize < record.redoLen then (f, false)
  else
    let created := f.getOrCreateTxInfo txId lsn entry.allocTxInfo
    if created.2 ∧ entry.allocRedoBuf ∧ entry.pushBack then
      (created.1.update txId fun info => { info with redoList := info.redoList ++ [record] }, true)
    else (created.1, false)

/-- The largest schema version in the rows of the table of DDL operations. -/
def extractDdlSchemaVersion (info : TxInfo ρ) : Int :=
  (info.redoList.flatMap RedoRecord.entries).foldl
    (fun version entry =>
      if entry.tabletId = allDdlOperationTid then max version (entry.rowkey.getD 0) else version)
    0

def handleCommitLog (f : Fetcher ρ) (txId commitVersion : Nat) (pushRing : Bool) :
    Fetcher ρ × Bool :=
  match f.find txId with
  | none => (f, true)
  | some info =>
    if info.isDdl then
      let version := extractDdlSchemaVersion info
      let f := f.erase txId
      (if 0 < version then { f with currentSchemaVersion := version } else f, true)
    else if pushRing then
      let f := f.update txId fun info =>
        { info with
          commitVersion := commitVersion
          schemaVersion := f.currentSchemaVersion }
      ({ f with ring := f.ring ++ [txId] }, true)
    -- A transaction that the ring does not take is forgotten.
    else (f.erase txId, false)

def handleAbortLog (f : Fetcher ρ) (txId : Nat) : Fetcher ρ := f.erase txId

def handleRollbackToLog (f : Fetcher ρ) (txId : Nat) (fromSeq toSeq : TxSeq) (pushBack : Bool) :
    Fetcher ρ × Bool :=
  match f.find txId with
  | none => (f, true)
  | some _ =>
    if pushBack then
      (f.update txId fun info =>
        { info with rollbackList := info.rollbackList ++ [(toSeq, fromSeq)] }, true)
    else (f, false)

/-- One log of a block at `lsn`. -/
def handleTxLog (f : Fetcher ρ) (txId lsn scn : Nat) (entry : TxLogEntry ρ) :
    Fetcher ρ × Bool :=
  if entry.getNextLog ∧ entry.deserializeLogBody then
    match entry.log with
    | .redo record =>
      if 0 < record.redoLen then f.handleRedoLog txId record lsn entry else (f, true)
    | .multiDataSource ddlTrans =>
      if ddlTrans then
        let created := f.getOrCreateTxInfo txId lsn entry.allocTxInfo
        (created.1.update txId fun info => { info with isDdl := true }, created.2)
      else (f, true)
    | .commit commitVersion =>
      f.handleCommitLog txId (commitVersion.getD scn) entry.pushRing
    | .abort => (f.handleAbortLog txId, true)
    | .rollbackTo fromSeq toSeq => f.handleRollbackToLog txId fromSeq toSeq entry.pushBack
    | .other => (f, true)
  else (f, false)

/-- The logs of a block, up to the first that fails. -/
def handleTxLogs (txId lsn scn : Nat) : List (TxLogEntry ρ) → Fetcher ρ → Fetcher ρ
  | [], f => f
  | entry :: rest, f =>
    let handled := f.handleTxLog txId lsn scn entry
    if handled.2 then handleTxLogs txId lsn scn rest handled.1 else handled.1

/-- A block of `size` bytes at `lsn`: once its headers are read the cursor moves
past it, whether or not its logs could be handled. -/
def handleBlock (f : Fetcher ρ) (lsn size scn : Nat) (block : LogBlock ρ) : Fetcher ρ :=
  match block with
  | .skipped => { f with currentLsn := lsn + size, currentScn := scn }
  | .trans txId readable entries =>
    if readable then
      { handleTxLogs txId lsn scn entries f with
        currentLsn := lsn + size
        currentScn := scn }
    else f

def releaseCommittedTx (f : Fetcher ρ) (txId : Nat) : Fetcher ρ := f.erase txId

/-! ### The infos of a fetcher -/

section

variable {f : Fetcher ρ} {txId other lsn : Nat} {info : TxInfo ρ}

theorem txId_of_find (h : f.find txId = some info) : info.txId = txId := by
  simpa using List.find?_some h

theorem find_erase : (f.erase txId).find other = if other = txId then none else f.find other := by
  rw [find, erase, List.find?_filter]
  split_ifs with heq
  · rw [List.find?_eq_none]
    intro info _
    simp [heq]
  congr 1
  funext info
  rw [Bool.eq_iff_iff]
  simp only [decide_eq_true_eq, bne_iff_ne, beq_iff_eq]
  constructor
  · exact And.right
  · intro hid
    exact ⟨fun hsame => heq (hid.symm.trans hsame), hid⟩

theorem find_update (hchange : ∀ info, (change info).txId = info.txId) :
    (f.update txId change).find other =
      (f.find other).map fun info => if info.txId = txId then change info else info := by
  rw [find, update, find, List.find?_map]
  congr 2
  funext info
  simp only [Function.comp_apply]
  split_ifs
  · rw [hchange]
  · rfl

theorem find_update_self
    (hchange : ∀ info, (change info).txId = info.txId) (h : f.find txId = some info) :
    (f.update txId change).find txId = some (change info) := by
  rw [find_update hchange, h, Option.map_some, if_pos (txId_of_find h)]

/-- The position recorded for a transaction. -/
def startOf (f : Fetcher ρ) (txId : Nat) : Option Nat := (f.find txId).map TxInfo.startLsn

theorem startOf_update (hid : ∀ info, (change info).txId = info.txId)
    (hstart : ∀ info, (change info).startLsn = info.startLsn) :
    (f.update txId change).startOf other = f.startOf other := by
  rw [startOf, find_update hid, startOf, Option.map_map]
  congr 1
  funext info
  simp only [Function.comp_apply]
  split_ifs
  · exact hstart info
  · rfl

theorem startOf_erase :
    (f.erase txId).startOf other = if other = txId then none else f.startOf other := by
  rw [startOf, find_erase]
  split_ifs <;> rfl

theorem startOf_create (alloc : Bool) : (f.getOrCreateTxInfo txId lsn alloc).1.startOf other =
      if other = txId ∧ f.find txId = none ∧ alloc = true then some lsn else f.startOf other := by
  rw [getOrCreateTxInfo]
  rcases hfind : f.find txId with _ | info
  · cases alloc with
    | false => simp
    | true =>
      by_cases heq : other = txId
      · simp [startOf, find, heq]
      · have hne : ¬ txId = other := fun h => heq h.symm
        simp [startOf, find, heq, hne]
  · simp

end

end Fetcher

end SeekDB.ChangeStream
