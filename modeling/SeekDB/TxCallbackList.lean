/-
The callback list of a transaction (ob_mvcc.h, ob_tx_callback_list.h,
ob_tx_callback_list.cpp): appending callbacks and the loop that visits and
removes them.

Callbacks are named by their addresses; the list is the one between the two
sides of the sentinel `head_`, which is `none` as a pointer.  Latches, log
output and the freeing of removed callbacks are left out.  What a callback's own
virtual functions return is an argument of the operation that calls them.
-/
import SeekDB.PointerList
import SeekDB.BatchChecksum
import SeekDB.TxUndo

namespace SeekDB

/-- `ObITransCallback`.  `checksumData` are the bytes that `calc_checksum` fills
in; a callback without transaction node, one marked `not_calc_checksum_` and one
of another kind has none. -/
structure TxCallback where
  addr : Nat
  needSubmitLog : Bool
  scn : Nat
  seqNo : TxSeq
  memtable : Nat
  dataSize : Int
  checksumData : Option (List UInt8)
  deriving Repr, DecidableEq

namespace TxCallback

/-- `set_scn`; only the first number is kept. -/
def setScn (callback : TxCallback) (scn : Nat) : TxCallback :=
  if callback.scn = obMaxScnTsNs then { callback with scn := scn } else callback

def beforeAppendCb (callback : TxCallback) (isReplay : Bool) (beforeAppend : ObRet) :
    ObRet × TxCallback :=
  if isReplay && !scnIsValid callback.scn then (.errUnexpected, callback)
  else if beforeAppend ≠ .success then (beforeAppend, callback)
  else (.success, { callback with needSubmitLog := !isReplay })

/-- `log_submitted_cb`, when the callback's own part succeeds. -/
def logSubmittedCb (callback : TxCallback) (scn : Nat) : TxCallback :=
  if callback.needSubmitLog then
    { callback.setScn scn with needSubmitLog := false }
  else callback

def calcChecksum (callback : TxCallback) (checksumScn : Nat) (sum : BatchChecksum) :
    BatchChecksum :=
  match callback.checksumData with
  | some bytes => if scnLe checksumScn callback.scn then sum.fill bytes else sum
  | none => sum

end TxCallback

/-- What the list asks of its `ObTransCallbackMgr` and of the configuration. -/
structure CallbackMgr where
  skipChecksumCalc : Bool
  isSerialFinal : Bool
  fastCommitCallbackCount : Int
  deriving Repr, DecidableEq

structure AppendMode where
  forReplay : Bool
  parallelReplay : Bool
  serialFinal : Bool
  deriving Repr, DecidableEq

/-- `ObTxCallbackList`; the pointers are addresses of callbacks, and a log cursor
`none` is the sentinel. -/
structure TxCallbackList where
  callbacks : List TxCallback
  logCursor : Option Nat
  parallelStartPos : Option Nat
  length : Int
  appended : Int
  logged : Int
  synced : Int
  removed : Int
  unlogRemoved : Int
  branchRemoved : Int
  dataSize : Int
  loggedDataSize : Int
  syncScn : Nat
  batchChecksum : BatchChecksum
  checksumScn : Nat
  checksum : BitVec 64
  tmpChecksum : BitVec 64
  deriving Repr, DecidableEq

namespace TxCallbackList

/-- The list as it is constructed. -/
def empty : TxCallbackList where
  callbacks := []
  logCursor := none
  parallelStartPos := none
  length := 0
  appended := 0
  logged := 0
  synced := 0
  removed := 0
  unlogRemoved := 0
  branchRemoved := 0
  dataSize := 0
  loggedDataSize := 0
  syncScn := obMinScnTsNs
  batchChecksum := .reset
  checksumScn := obMinScnTsNs
  checksum := 0
  tmpChecksum := 0

def getNext (list : TxCallbackList) (p : Option Nat) : Option Nat :=
  PointerList.next TxCallback.addr list.callbacks p

def getPrev (list : TxCallbackList) (p : Option Nat) : Option Nat :=
  PointerList.prev TxCallback.addr list.callbacks p

def getTail (list : TxCallbackList) : Option Nat := list.getPrev none

/-- The callback at an address; the sentinel is none. -/
def find (list : TxCallbackList) (p : Option Nat) : Option TxCallback :=
  list.callbacks.find? (fun callback => some callback.addr == p)

/-- Where `append_callback` links what it is given. -/
def appendPos (list : TxCallbackList) (mode : AppendMode) : Option Nat :=
  if !mode.forReplay || mode.parallelReplay || mode.serialFinal ||
      list.parallelStartPos.isNone then list.getTail
  else list.getPrev list.parallelStartPos

/-- The check on the order of replayed callbacks. -/
def outOfOrder (list : TxCallbackList) (mode : AppendMode) (scn : Nat) : Bool :=
  mode.forReplay &&
    (list.find (list.appendPos mode)).any (fun pos => scnLt scn pos.scn)

/-- Both forms of `append_callback` once the callbacks are prepared: they are
linked, and the cursor, the start of the parallel replay and the counters
follow.  `cursor` is where the log cursor goes if it was at the sentinel. -/
def link (list : TxCallbackList) (batch : List TxCallback) (length dataSize : Int)
    (cursor : Option Nat) (mode : AppendMode) : TxCallbackList :=
  let linked : TxCallbackList :=
    { list with
      callbacks := PointerList.insertBehind TxCallback.addr list.callbacks
        (list.appendPos mode) batch }
  { linked with
    parallelStartPos :=
      if mode.forReplay && mode.parallelReplay && !mode.serialFinal &&
          list.parallelStartPos.isNone then linked.getTail
      else list.parallelStartPos
    logCursor :=
      if !mode.forReplay && list.logCursor.isNone then cursor else list.logCursor
    appended := list.appended + length
    length := list.length + length
    dataSize := list.dataSize + dataSize
    logged := list.logged + (if mode.forReplay then length else 0)
    synced := list.synced + (if mode.forReplay then length else 0)
    loggedDataSize := list.loggedDataSize + (if mode.forReplay then dataSize else 0) }

/-- `append_callback` of one callback. -/
def appendCallback (list : TxCallbackList) (callback : TxCallback) (mode : AppendMode)
    (beforeAppend : ObRet) : ObRet × TxCallbackList :=
  match callback.beforeAppendCb mode.forReplay beforeAppend with
  | (.success, prepared) =>
    if list.outOfOrder mode prepared.scn then (.errUnexpected, list)
    else
      -- a callback of the leader goes to the tail, which is then the cursor
      (.success, list.link [prepared] 1 prepared.dataSize (some prepared.addr) mode)
  | (ret, _) => (ret, list)

/-- The first loop of `append_callback` of a chain. -/
def prepareAll (isReplay : Bool) (beforeAppend : TxCallback → ObRet) :
    List TxCallback → ObRet × List TxCallback
  | [] => (.success, [])
  | callback :: rest =>
    match callback.beforeAppendCb isReplay (beforeAppend callback) with
    | (.success, prepared) =>
      let (ret, others) := prepareAll isReplay beforeAppend rest
      (ret, prepared :: others)
    | (ret, _) => (ret, [])

/-- `append_callback` of a chain of callbacks, with the length the caller
states. -/
def appendCallbacks (list : TxCallbackList) (batch : List TxCallback) (length : Int)
    (mode : AppendMode) (beforeAppend : TxCallback → ObRet) : ObRet × TxCallbackList :=
  match batch with
  | [] => (.errUnexpected, list)
  | head :: _ =>
    match prepareAll mode.forReplay beforeAppend batch with
    | (.success, prepared) =>
      if list.outOfOrder mode head.scn then (.errUnexpected, list)
      else
        (.success, list.link prepared length (prepared.map TxCallback.dataSize).sum
            (some head.addr) mode)
    | (ret, _) => (ret, list)

/-- What a functor does with one callback. -/
structure Visit (σ : Type) where
  ret : ObRet
  state : σ
  checksum : BatchChecksum
  needRemoveCallback : Bool

/-- `ObITxCallbackFunctor`; a functor may fill the checksum of the list. -/
structure Functor (σ : Type) where
  isReverse : Bool
  isIterEnd : σ → TxCallback → Bool
  visit : σ → BatchChecksum → TxCallback → Visit σ

/-- The check of `callback_` before a removal: a callback that was replayed in
parallel stays until the serial part is complete. -/
def removeTooEarly (list : TxCallbackList) (mgr : CallbackMgr) (scn : Nat) : Bool :=
  list.parallelStartPos.isSome && !mgr.skipChecksumCalc && !mgr.isSerialFinal &&
    (list.find list.parallelStartPos).any (fun start => scnLe start.scn scn) &&
    scnLe scn list.syncScn

/-- The removal of `iter` in `callback_`.  Every 10000 removals the checksum is
logged, which empties its buffer. -/
def removeCallback (list : TxCallbackList) (isReverse : Bool) (iter : TxCallback) :
    TxCallbackList :=
  let next := if isReverse then list.getPrev (some iter.addr)
    else list.getNext (some iter.addr)
  { list with
    batchChecksum :=
      if list.removed ≠ 0 ∧ list.removed % 10000 = 0 then list.batchChecksum.calcSum.2
      else list.batchChecksum
    callbacks := PointerList.remove TxCallback.addr list.callbacks iter.addr
    logCursor := if list.logCursor = some iter.addr then next else list.logCursor
    parallelStartPos :=
      if list.parallelStartPos = some iter.addr then
        if isReverse then none else next
      else list.parallelStartPos
    removed := list.removed + 1
    unlogRemoved := list.unlogRemoved + (if iter.needSubmitLog then 1 else 0) }

/-- How a loop over callbacks ends. -/
structure Traversal (σ : Type) where
  ret : ObRet
  state : σ
  removeCnt : Int
  list : TxCallbackList

variable {σ : Type}

/-- The loop of `callback_` over the callbacks still to be visited. -/
def traverse (mgr : CallbackMgr) (functor : Functor σ) :
    List TxCallback → Traversal σ → Traversal σ
  | [], done => done
  | iter :: rest, done =>
    if iter.scn = obMinScnTsNs then { done with ret := .errUnexpected }
    else if functor.isIterEnd done.state iter then done
    else
      let visit := functor.visit done.state done.list.batchChecksum iter
      let visited : Traversal σ :=
        { done with
          ret := visit.ret
          state := visit.state
          list := { done.list with batchChecksum := visit.checksum } }
      if visit.ret ≠ .success then visited
      else if !visit.needRemoveCallback then traverse mgr functor rest visited
      else if visited.list.removeTooEarly mgr iter.scn then
        { visited with ret := .errUnexpected }
      else
        traverse mgr functor rest
          { visited with
            removeCnt := visited.removeCnt + 1
            list := visited.list.removeCallback functor.isReverse iter }

/-- `callback_` between two pointers, both excluded. -/
def callback (list : TxCallbackList) (mgr : CallbackMgr) (functor : Functor σ) (state : σ)
    (start stop : Option Nat) : Traversal σ :=
  let range := if functor.isReverse then
      PointerList.betweenBack TxCallback.addr list.callbacks start stop
    else PointerList.between TxCallback.addr list.callbacks start stop
  let done := traverse mgr functor range ⟨.success, state, 0, list⟩
  { done with list := { done.list with length := done.list.length - done.removeCnt } }

end TxCallbackList

end SeekDB
