/-
The rows the dispatcher of the change stream delivers
(ob_change_stream_dispatcher.cpp): the redo records of a committed transaction are
parsed, rows in a rolled back range are dropped, and the others are dealt out to
the subtasks by their heap key.
-/
import SeekDB.ChangeStreamFetcher

universe u

namespace SeekDB.ChangeStream

open List

variable {ρ : Type u}

/-- `OB_MAX_INNER_TABLE_ID`. -/
def maxInnerTableId : Nat := 200000

def maxUserTabletId : Nat := 2 ^ 37 - 1

/-- `is_row_visible`; a range is the pair (`to`, `from`). -/
def isRowVisible (stmtSeqNo : TxSeq) (rollbackList : List (TxSeq × TxSeq)) : Bool :=
  !rollbackList.any fun range =>
    decide (range.1.getSeq ≤ stmtSeqNo.getSeq) && decide (stmtSeqNo.getSeq < range.2.getSeq)

/-- `ObCSRow`. -/
structure CSRow (ρ : Type u) where
  tabletId : Nat
  commitVersion : Nat
  heapPk : Int
  seqNo : TxSeq
  row : ρ
  deriving Repr, DecidableEq

/-- The row an entry is delivered as, if it is. -/
def parseEntry (info : TxInfo ρ) (entry : MutatorEntry ρ) : Option (CSRow ρ) :=
  if entry.tabletId < maxInnerTableId then none
  else if entry.mutatorType ≠ .row ∧ entry.mutatorType ≠ .rowExtInfo then none
  else if maxUserTabletId < entry.tabletId then none
  else if entry.seqNo.isValid ∧ ¬ isRowVisible entry.seqNo info.rollbackList then none
  else
    some
      { tabletId := entry.tabletId
        commitVersion := info.commitVersion
        heapPk := entry.rowkey.getD 0
        seqNo := entry.seqNo
        row := entry.row }

/-- The subtask of a heap key, with the remainders of the machine. -/
def sliceId (heapPk : Int) (sliceCount : Nat) : Nat :=
  (((heapPk.tmod sliceCount) + sliceCount).tmod sliceCount).toNat

/-- Subtasks as their rows, and the number of rows added. -/
structure Slices (ρ : Type u) where
  subTasks : List (List (CSRow ρ))
  rowCount : Nat
  deriving Repr, DecidableEq

def Slices.addRow (slices : Slices ρ) (row : CSRow ρ) : Slices ρ :=
  { subTasks := slices.subTasks.modify (sliceId row.heapPk slices.subTasks.length) (· ++ [row])
    rowCount := slices.rowCount + 1 }

def parseRedoRecord (info : TxInfo ρ) (record : RedoRecord ρ) (slices : Slices ρ) : Slices ρ :=
  record.entries.foldl
    (fun slices entry => (parseEntry info entry).elim slices slices.addRow) slices

def addTxRedoToSubtasks (info : TxInfo ρ) (subTasks : List (List (CSRow ρ))) : Slices ρ :=
  info.redoList.foldl (fun slices record => parseRedoRecord info record slices) ⟨subTasks, 0⟩

/-! ### Dealing out rows -/

theorem sliceId_lt (heapPk : Int) {sliceCount : Nat} (hpos : 0 < sliceCount) :
    sliceId heapPk sliceCount < sliceCount := by
  have hcount : (0 : Int) < sliceCount := by exact_mod_cast hpos
  have hlow : -(sliceCount : Int) < heapPk.tmod sliceCount := by
    have := Int.lt_tmod_of_pos heapPk hcount
    omega
  have hmod := Int.tmod_lt_of_pos (heapPk.tmod sliceCount + sliceCount) hcount
  rw [sliceId]
  omega

/-- The rows of a transaction that are delivered, in log order. -/
def deliveredRows (info : TxInfo ρ) : List (CSRow ρ) :=
  (info.redoList.flatMap RedoRecord.entries).filterMap (parseEntry info)

theorem addRow_subTasks (slices : Slices ρ) (row : CSRow ρ) (k : Nat) :
    (slices.addRow row).subTasks[k]? = slices.subTasks[k]?.map
        (· ++ [row].filter fun row => sliceId row.heapPk slices.subTasks.length = k) := by
  rw [Slices.addRow, List.getElem?_modify]
  by_cases hslice : sliceId row.heapPk slices.subTasks.length = k <;> simp [hslice]

theorem addRow_length (slices : Slices ρ) (row : CSRow ρ) :
    (slices.addRow row).subTasks.length = slices.subTasks.length :=
  length_modify ..

/-- Adding rows one by one appends to every subtask the rows of its slice, in order. -/
theorem foldl_addRow_subTasks (rows : List (CSRow ρ)) (slices : Slices ρ) (k : Nat) :
    (rows.foldl Slices.addRow slices).subTasks[k]? = slices.subTasks[k]?.map
        (· ++ rows.filter fun row => sliceId row.heapPk slices.subTasks.length = k) := by
  induction rows generalizing slices with
  | nil => simp
  | cons row rest ih =>
    rw [foldl_cons, ih, addRow_length, addRow_subTasks, Option.map_map]
    congr 1
    funext subTask
    rw [Function.comp_apply, append_assoc, ← filter_append, singleton_append]

theorem addTxRedoToSubtasks_eq (info : TxInfo ρ) (subTasks : List (List (CSRow ρ))) :
    addTxRedoToSubtasks info subTasks = (deliveredRows info).foldl Slices.addRow ⟨subTasks, 0⟩ := by
  rw [addTxRedoToSubtasks, deliveredRows, foldl_filterMap, foldl_flatMap]
  congr 1
  funext slices record
  rw [parseRedoRecord]
  congr 1
  funext slices entry
  cases parseEntry info entry <;> rfl

theorem foldl_addRow_length (rows : List (CSRow ρ)) (slices : Slices ρ) :
    (rows.foldl Slices.addRow slices).subTasks.length = slices.subTasks.length := by
  induction rows generalizing slices with
  | nil => rfl
  | cons row rest ih => rw [foldl_cons, ih, addRow_length]

/-! ### The logs of a transaction -/

/-- A log with the position and the scn of its block. -/
structure PlacedLog (ρ : Type u) where
  lsn : Nat
  scn : Nat
  log : TxLog ρ

/-- A log a running transaction writes. -/
def TxLog.IsWrite : TxLog ρ → Prop
  | .redo record => 0 < record.redoLen ∧ record.redoLen ≤ Fetcher.maxRedoMutatorSize
  | .rollbackTo _ _ => True
  | _ => False

def TxLog.records : TxLog ρ → List (RedoRecord ρ)
  | .redo record => [record]
  | _ => []

/-- What the engine undoes for a log. -/
def TxLog.undoActions : TxLog ρ → List UndoAction
  | .rollbackTo fromSeq toSeq => [⟨fromSeq, toSeq⟩]
  | _ => []

/-- The undo actions of the logs behind the first redo record. -/
def keptActions : List (PlacedLog ρ) → List UndoAction
  | [] => []
  | placed :: rest =>
    match placed.log with
    | .redo _ => rest.flatMap fun placed => placed.log.undoActions
    | _ => keptActions rest

/-- The range the fetcher keeps of an undo action. -/
def rangeOf (action : UndoAction) : TxSeq × TxSeq := (action.undoTo, action.undoFrom)

namespace Fetcher

variable {f : Fetcher ρ} {txId : Nat} {info : TxInfo ρ}

def consume (f : Fetcher ρ) (txId : Nat) (placed : PlacedLog ρ) : Fetcher ρ :=
  (f.handleTxLog txId placed.lsn placed.scn { log := placed.log }).1

def consumeAll (f : Fetcher ρ) (txId : Nat) (logs : List (PlacedLog ρ)) : Fetcher ρ :=
  logs.foldl (fun f placed => f.consume txId placed) f

theorem find_consume (hfind : f.find txId = some info) {placed : PlacedLog ρ}
    (hwrite : placed.log.IsWrite) :
    (f.consume txId placed).find txId =
      some { info with
        redoList := info.redoList ++ placed.log.records
        rollbackList := info.rollbackList ++ placed.log.undoActions.map rangeOf } := by
  obtain ⟨lsn, scn, log⟩ := placed
  cases log with
  | redo record =>
    obtain ⟨hpos, hmax⟩ := hwrite
    have hsize : ¬ (record.redoLen = 0 ∨ maxRedoMutatorSize < record.redoLen) := by omega
    have hcreate : f.getOrCreateTxInfo txId lsn true = (f, true) := by
      rw [getOrCreateTxInfo, hfind]
    simp only [consume, handleTxLog, handleRedoLog, and_self, if_true, hpos, hsize, if_false,
      hcreate]
    refine (find_update_self (fun _ => by rfl) hfind).trans ?_
    simp [TxLog.records, TxLog.undoActions]
  | rollbackTo =>
    simp only [consume, handleTxLog, handleRollbackToLog, and_self, if_true, hfind]
    refine (find_update_self (fun _ => by rfl) hfind).trans ?_
    simp [TxLog.records, TxLog.undoActions, rangeOf]
  | multiDataSource | commit | abort | other => exact hwrite.elim

theorem find_consumeAll {logs : List (PlacedLog ρ)} (hwrite : ∀ placed ∈ logs, placed.log.IsWrite)
    (hfind : f.find txId = some info) :
    (f.consumeAll txId logs).find txId =
      some { info with
        redoList := info.redoList ++ logs.flatMap fun placed => placed.log.records
        rollbackList := info.rollbackList ++
          (logs.flatMap fun placed => placed.log.undoActions).map rangeOf } := by
  induction logs generalizing f info with
  | nil => simpa [consumeAll] using hfind
  | cons placed rest ih =>
    obtain ⟨hplaced, hrest⟩ := forall_mem_cons.mp hwrite
    have hnext := ih hrest (find_consume hfind hplaced)
    simp only [consumeAll, foldl_cons] at hnext ⊢
    rw [hnext]
    simp

theorem find_consume_first (hfind : f.find txId = none) {placed : PlacedLog ρ}
    {record : RedoRecord ρ} (hredo : placed.log = .redo record) (hwrite : placed.log.IsWrite) :
    (f.consume txId placed).find txId =
      some { txId := txId, commitVersion := 0, startLsn := placed.lsn, schemaVersion := 0,
             isDdl := false, rollbackList := [], redoList := [record] } := by
  obtain ⟨lsn, scn, log⟩ := placed
  subst hredo
  obtain ⟨hpos, hmax⟩ := hwrite
  have hsize : ¬ (record.redoLen = 0 ∨ maxRedoMutatorSize < record.redoLen) := by omega
  simp only [consume, handleTxLog, handleRedoLog, and_self, if_true, hpos, hsize, if_false,
    getOrCreateTxInfo, hfind]
  have hcreated : Fetcher.find
      { f with txInfo := TxInfo.mk txId 0 lsn 0 false [] [] :: f.txInfo } txId =
        some (TxInfo.mk txId 0 lsn 0 false [] []) := by
    simp [find]
  exact (find_update_self (fun _ => by rfl) hcreated).trans rfl

/-- A transaction becomes known with its first redo record only. -/
theorem consume_rollbackTo (hfind : f.find txId = none) (lsn scn : Nat) (fromSeq toSeq : TxSeq) :
    f.consume txId ⟨lsn, scn, .rollbackTo fromSeq toSeq⟩ = f := by
  simp [consume, handleTxLog, handleRollbackToLog, hfind]

theorem find_consume_commit (hfind : f.find txId = some info) (hdml : info.isDdl = false)
    (lsn scn : Nat) (commitVersion : Option Nat) :
    (f.consume txId ⟨lsn, scn, .commit commitVersion⟩).find txId =
      some { info with
        commitVersion := commitVersion.getD scn
        schemaVersion := f.currentSchemaVersion } := by
  simp only [consume, handleTxLog, handleCommitLog, and_self, if_true, hfind, hdml,
    Bool.false_eq_true, if_false]
  rw [← hdml]
  have hupdate : (f.update txId fun info =>
      { info with
        commitVersion := commitVersion.getD scn
        schemaVersion := f.currentSchemaVersion }).find txId = some _ :=
    find_update_self (fun _ => rfl) hfind
  exact hupdate

end Fetcher

/-! ### Visible rows -/

/-- The dispatcher's reading of a range: any branch, from `undo_to_` on and below
`undo_from_`. -/
def Hides (action : UndoAction) (seqNo : TxSeq) : Prop :=
  action.undoTo.getSeq ≤ seqNo.getSeq ∧ seqNo.getSeq < action.undoFrom.getSeq

instance (action : UndoAction) (seqNo : TxSeq) : Decidable (Hides action seqNo) :=
  inferInstanceAs (Decidable (_ ∧ _))

/-- A row that is undone lies in a range that was kept, and a row in such a range is
undone, by that action or by another one. -/
def Honoured (logs : List (PlacedLog ρ)) (seqNo : TxSeq) : Prop :=
  ((∃ action ∈ logs.flatMap fun placed => placed.log.undoActions,
      action.isContain seqNo = true) → ∃ action ∈ keptActions logs, Hides action seqNo) ∧
    (seqNo.isValid = true → (∃ action ∈ keptActions logs, Hides action seqNo) →
      ∃ action ∈ logs.flatMap fun placed => placed.log.undoActions,
        action.isContain seqNo = true)

instance (logs : List (PlacedLog ρ)) (seqNo : TxSeq) : Decidable (Honoured logs seqNo) :=
  inferInstanceAs (Decidable ((_ → _) ∧ (_ → _ → _)))

theorem isRowVisible_iff {actions : List UndoAction} {seqNo : TxSeq} :
    isRowVisible seqNo (actions.map rangeOf) = true ↔ ¬ ∃ action ∈ actions, Hides action seqNo := by
  rw [isRowVisible, Bool.not_eq_true', any_eq_false, forall_mem_map]
  simp only [not_exists, not_and]
  refine forall₂_congr fun action _ => ?_
  rw [Bool.and_eq_true, decide_eq_true_eq, decide_eq_true_eq]
  rfl

/-- A row of a user table that has a sequence number, or none. -/
def MutatorEntry.IsUserRow (entry : MutatorEntry ρ) : Prop :=
  (entry.mutatorType = .row ∨ entry.mutatorType = .rowExtInfo) ∧
    maxInnerTableId ≤ entry.tabletId ∧ entry.tabletId ≤ maxUserTabletId ∧
    (entry.seqNo.isValid = true ∨ entry.seqNo = .reset)

theorem parseEntry_isSome {entry : MutatorEntry ρ} (hrow : entry.IsUserRow) (info : TxInfo ρ) :
    (parseEntry info entry).isSome = true ↔
      (entry.seqNo.isValid = true → isRowVisible entry.seqNo info.rollbackList = true) := by
  obtain ⟨htype, hinner, huser, -⟩ := hrow
  have hkind : ¬ (entry.mutatorType ≠ .row ∧ entry.mutatorType ≠ .rowExtInfo) := by
    rintro ⟨hnotRow, hnotExt⟩
    exact htype.elim hnotRow hnotExt
  rw [parseEntry, if_neg (Nat.not_lt.mpr hinner), if_neg hkind, if_neg (Nat.not_lt.mpr huser)]
  split_ifs with hhidden
  · simp only [Option.isSome_none, Bool.false_eq_true, false_iff]
    exact fun hvisible => hhidden.2 (hvisible hhidden.1)
  simp only [Option.isSome_some, true_iff]
  intro hvalid
  by_contra hinvisible
  exact hhidden ⟨hvalid, hinvisible⟩

theorem parseEntry_isSome_iff {entry : MutatorEntry ρ} (hrow : entry.IsUserRow) {info : TxInfo ρ}
    {logs : List (PlacedLog ρ)} (hlist : info.rollbackList = (keptActions logs).map rangeOf) :
    ((parseEntry info entry).isSome = true ↔
      ∀ action ∈ logs.flatMap (fun placed => placed.log.undoActions),
        action.isContain entry.seqNo = false) ↔ Honoured logs entry.seqNo := by
  have hkept : (∀ action ∈ logs.flatMap (fun placed => placed.log.undoActions),
      action.isContain entry.seqNo = false) ↔
        ¬ ∃ action ∈ logs.flatMap fun placed => placed.log.undoActions,
          action.isContain entry.seqNo = true := by
    simp only [not_exists, not_and, Bool.not_eq_true]
  rw [parseEntry_isSome hrow, hlist, isRowVisible_iff, hkept]
  rcases hrow.2.2.2 with hvalid | hreset
  · simp only [Honoured, hvalid, true_implies, not_iff_not]
    exact ⟨fun h => ⟨h.mpr, h.mp⟩, fun h => ⟨h.2, h.1⟩⟩
  -- No action reaches down to the sequence number 0.
  have hzero : (TxSeq.reset).getSeq = 0 := by decide
  have hinvalid : (TxSeq.reset).isValid = false := by decide
  simp [Honoured, hreset, hinvalid, UndoAction.isContain, hzero]

section

variable {f : Fetcher ρ} {txId : Nat} {logs : List (PlacedLog ρ)}

/-- The transaction's info once its commit log is consumed. -/
def committedInfo (f : Fetcher ρ) (txId : Nat) (logs : List (PlacedLog ρ)) (lsn scn : Nat)
    (commitVersion : Option Nat) : Option (TxInfo ρ) :=
  ((f.consumeAll txId logs).consume txId ⟨lsn, scn, .commit commitVersion⟩).find txId

theorem committedInfo_eq (hnew : f.find txId = none)
    (hwrite : ∀ placed ∈ logs, placed.log.IsWrite)
    (hrows : logs.flatMap (fun placed => placed.log.records) ≠ []) (lsn scn : Nat)
    (commitVersion : Option Nat) :
    ∃ info, committedInfo f txId logs lsn scn commitVersion = some info ∧
      info.redoList = logs.flatMap (fun placed => placed.log.records) ∧
      info.rollbackList = (keptActions logs).map rangeOf := by
  induction logs with
  | nil => exact absurd rfl hrows
  | cons first logs ih =>
    obtain ⟨hplaced, hrest⟩ := forall_mem_cons.mp hwrite
    obtain ⟨firstLsn, firstScn, log⟩ := first
    cases log with
    | redo record =>
      have hall := Fetcher.find_consumeAll hrest (Fetcher.find_consume_first hnew rfl hplaced)
      exact ⟨_, Fetcher.find_consume_commit hall rfl lsn scn commitVersion, rfl, rfl⟩
    | rollbackTo fromSeq toSeq =>
      obtain ⟨info, hinfo, hredo, hrollback⟩ := ih hrest hrows
      refine ⟨info, ?_, hredo, hrollback⟩
      rw [committedInfo, Fetcher.consumeAll, foldl_cons, Fetcher.consume_rollbackTo hnew]
      exact hinfo
    | multiDataSource | commit | abort | other => exact hplaced.elim

/-- A row of a transaction is delivered as the engine leaves it exactly when the ranges
that were kept agree, taken together, with the undo actions.  Whatever the transaction,
a subtask gets the rows of its slice in log order. -/
theorem rows_delivered (f : Fetcher ρ) (txId : Nat) :
    (∀ logs lsn scn commitVersion, f.find txId = none →
        (∀ placed ∈ logs, placed.log.IsWrite) →
        logs.flatMap (fun placed => placed.log.records) ≠ [] →
      ∃ info, committedInfo f txId logs lsn scn commitVersion = some info ∧
        info.redoList = logs.flatMap (fun placed => placed.log.records) ∧
        ∀ record ∈ info.redoList, ∀ entry ∈ record.entries, entry.IsUserRow →
          (((parseEntry info entry).isSome = true ↔
            ∀ action ∈ logs.flatMap (fun placed => placed.log.undoActions),
              action.isContain entry.seqNo = false) ↔ Honoured logs entry.seqNo)) ∧
    ∀ (info : TxInfo ρ) (subTasks : List (List (CSRow ρ))), 0 < subTasks.length →
      (∀ row ∈ deliveredRows info, sliceId row.heapPk subTasks.length < subTasks.length) ∧
      ∀ k, (addTxRedoToSubtasks info subTasks).subTasks[k]? = subTasks[k]?.map
          (· ++ (deliveredRows info).filter fun row =>
            sliceId row.heapPk subTasks.length = k) := by
  constructor
  · intro logs lsn scn commitVersion hnew hwrite hrows
    obtain ⟨info, hinfo, hredo, hrollback⟩ :=
      committedInfo_eq hnew hwrite hrows lsn scn commitVersion
    refine ⟨info, hinfo, hredo, ?_⟩
    intro record _ entry _ hrow
    exact parseEntry_isSome_iff hrow hrollback
  · intro info subTasks hpos
    refine ⟨fun row _ => sliceId_lt row.heapPk hpos, fun k => ?_⟩
    rw [addTxRedoToSubtasks_eq, foldl_addRow_subTasks]

/-- A row of the first user tablet. -/
def userRow (seq branch : Nat) : MutatorEntry Unit :=
  ⟨.row, maxInnerTableId, .ofParts seq branch, some 0, ()⟩

/-- One record with rows of the given sequence numbers and branches. -/
def redoOf (rows : List (Nat × Nat)) : PlacedLog Unit :=
  ⟨0, 1, .redo ⟨8, rows.map fun row => userRow row.1 row.2⟩⟩

/-- Rows at 2 and 5, of which the second one is the end of the first range and inside
the other one. -/
def rolledBackLogs : List (PlacedLog Unit) :=
  [redoOf [(2, 0), (5, 0)], ⟨8, 2, .rollbackTo (.ofParts 5 0) (.ofParts 3 0)⟩,
    ⟨16, 3, .rollbackTo (.ofParts 7 0) (.ofParts 3 0)⟩]

theorem rows_delivered_rollback :
    ∃ info, committedInfo ⟨0, 0, 0, [], []⟩ 1 rolledBackLogs 24 4 none = some info ∧
      (parseEntry info (userRow 2 0)).isSome = true ∧
      (parseEntry info (userRow 5 0)).isSome = false := by
  have hwrite : ∀ placed ∈ rolledBackLogs, placed.log.IsWrite := by
    simp [rolledBackLogs, redoOf, TxLog.IsWrite, Fetcher.maxRedoMutatorSize]
  have huser : ∀ seq branch, (TxSeq.ofParts seq branch).isValid = true →
      (userRow seq branch).IsUserRow := by
    intro seq branch hvalid
    exact ⟨.inl rfl, Nat.le_refl _, by change maxInnerTableId ≤ _; decide, .inl hvalid⟩
  obtain ⟨info, hinfo, hredo, hrows⟩ :=
    (rows_delivered ⟨0, 0, 0, [], []⟩ 1).1 rolledBackLogs 24 4 none rfl hwrite (by decide)
  have hrow := hrows ⟨8, [userRow 2 0, userRow 5 0]⟩ (by rw [hredo]; decide)
  refine ⟨info, hinfo, ?_, ?_⟩
  · rw [(hrow _ (by simp) (huser 2 0 (by decide))).mpr (by decide)]
    decide
  · rw [← Bool.not_eq_true, (hrow _ (by simp) (huser 5 0 (by decide))).mpr (by decide)]
    decide

/-- After a rollback from 5 to 3 the row at 5 is undone but delivered, and the row at 3
is kept but not delivered; a rollback on branch 1 takes away a row of branch 2; and a
rollback that comes before the first record is forgotten. -/
theorem rows_not_delivered : (∃ info, committedInfo ⟨0, 0, 0, [], []⟩ 1
        [redoOf [(3, 0), (5, 0)], ⟨8, 2, .rollbackTo (.ofParts 5 0) (.ofParts 3 0)⟩] 16 3 none =
          some info ∧
      (UndoAction.mk (.ofParts 5 0) (.ofParts 3 0)).isContain (.ofParts 5 0) = true ∧
      (parseEntry info (userRow 5 0)).isSome = true ∧
      (UndoAction.mk (.ofParts 5 0) (.ofParts 3 0)).isContain (.ofParts 3 0) = false ∧
      (parseEntry info (userRow 3 0)).isSome = false) ∧
    (∃ info, committedInfo ⟨0, 0, 0, [], []⟩ 1
        [redoOf [(4, 2)], ⟨8, 2, .rollbackTo (.ofParts 5 1) (.ofParts 3 1)⟩] 16 3 none = some info ∧
      (UndoAction.mk (.ofParts 5 1) (.ofParts 3 1)).isContain (.ofParts 4 2) = false ∧
      (parseEntry info (userRow 4 2)).isSome = false) ∧
    ∃ info, committedInfo ⟨0, 0, 0, [], []⟩ 1
        [⟨0, 1, .rollbackTo (.ofParts 5 0) (.ofParts 3 0)⟩, redoOf [(4, 0)]] 16 3 none = some info ∧
      (UndoAction.mk (.ofParts 5 0) (.ofParts 3 0)).isContain (.ofParts 4 0) = true ∧
      (parseEntry info (userRow 4 0)).isSome = true := by
  refine ⟨⟨_, rfl, ?_⟩, ⟨_, rfl, ?_⟩, ⟨_, rfl, ?_⟩⟩ <;> decide

end

end SeekDB.ChangeStream
