/-
Serialized transaction data (ob_tx_data_define.cpp, ob_tx_data_op.cpp).

The operations of a transaction are values of other classes; how those are
written and read is a parameter.  Memory is granted by the caller: a number of
slices for nodes and tx ops, and whether there is memory for operations.
-/
import SeekDB.TxUndo
import SeekDB.Serialization

namespace SeekDB

open WireCodec Serialization PackedStack

/-- `SCN::serialize`. -/
def scnSerialize (val : Nat) : Writer ObRet := fun bufLen out =>
  if bufLen = 0 then .error .invalidArgument
  else encodeVi64 (BitVec.ofNat 64 val) bufLen out

def scnSerializeSize (val : Nat) : Nat := encodedLengthVi64 (BitVec.ofNat 64 val)

/-- `SCN::deserialize`, with `transform_max_`. -/
def scnDeserialize : Reader ObRet Nat := fun buf dataLen pos =>
  if dataLen = 0 then .error .invalidArgument
  else do
    let (val, pos) ← decodeVi64 buf dataLen pos
    return (if val.toNat = 2 ^ 63 - 1 then obMaxScnTsNs else val.toNat, pos)

/-- `ObTransID`. -/
def transIdSerialize (txId : BitVec 64) : Writer ObRet := unisSerialize 1 (encodeVi64 txId)

def transIdSerializeSize (txId : BitVec 64) : Nat :=
  unisSerializeSize 1 (encodedLengthVi64 txId)

def transIdDeserialize : Reader ObRet (BitVec 64) :=
  unisDeserialize 1 (unisDecode 0 decodeVi64)

namespace TxSeq

def serialize (seq : TxSeq) : Writer ObRet := encodeVi64 seq.rawVal

def serializeSize (seq : TxSeq) : Nat := encodedLengthVi64 seq.rawVal

def deserialize : Reader ObRet TxSeq := fun buf dataLen pos => do
  let (rawVal, pos) ← decodeVi64 buf dataLen pos
  if rawVal ≠ 0 ∧ TxSeq.isValid ⟨rawVal⟩ = false then .error .versionNotMatch
  else return (⟨rawVal⟩, pos)

end TxSeq

namespace UndoAction

def serialize (action : UndoAction) : Writer ObRet :=
  unisSerialize 1 (action.undoFrom.serialize.andThen action.undoTo.serialize)

def serializeSize (action : UndoAction) : Nat :=
  unisSerializeSize 1 (action.undoFrom.serializeSize + action.undoTo.serializeSize)

/-- Into an action that has been used before. -/
def deserialize (old : UndoAction) : Reader ObRet UndoAction :=
  unisDeserialize 1
    ((unisDecode old.undoFrom TxSeq.deserialize).andThen fun undoFrom =>
      (unisDecode old.undoTo TxSeq.deserialize).andThen fun undoTo =>
        Reader.done ⟨undoFrom, undoTo⟩)

end UndoAction

namespace UndoStatusList

/-- `serialize_`: the nodes are popped from a stack, so the oldest come first. -/
def serializeNodes (list : UndoStatusList) : Writer ObRet :=
  (encodeVi32 (BitVec.ofInt 32 list.undoNodeCnt)).andThen
    (Writer.sequence ((items list.nodes).map UndoAction.serialize))

/-- `get_serialize_size_`. -/
def serializeNodesSize (list : UndoStatusList) : Nat :=
  encodedLengthVi32 (BitVec.ofInt 32 list.undoNodeCnt) +
    (list.nodes.map fun node => (node.map UndoAction.serializeSize).sum).sum

def serialize (list : UndoStatusList) : Writer ObRet := fun bufLen out =>
  if bufLen = 0 ∨ bufLen < out.length then .error .invalidArgument
  else
    (encodeVi64 1).andThen
      ((encodeVi64 (BitVec.ofNat 64 list.serializeNodesSize)).andThen list.serializeNodes)
      bufLen out

def serializeSize (list : UndoStatusList) : Nat :=
  encodedLengthVi64 1 + encodedLengthVi64 (BitVec.ofNat 64 list.serializeNodesSize) +
    list.serializeNodesSize

/-- The loop of `deserialize_`; every round reads at least one byte.  `old` is
the action of the round before.  The last node is the one that grows. -/
def deserializeActions : Nat → Nat → UndoAction → List (List UndoAction) →
    Reader ObRet (List (List UndoAction))
  | 0, _, _, nodes => fun _ dataLen pos =>
    if pos < dataLen then .error .errUnexpected else .ok (nodes, pos)
  | fuel + 1, slices, old, nodes => fun buf dataLen pos =>
    if pos < dataLen then do
      let (action, pos) ← unisDecode old (UndoAction.deserialize old) buf dataLen pos
      if headIsFull nodes then
        if slices = 0 then .error .allocateMemoryFailed
        else deserializeActions fuel (slices - 1) action ([action] :: nodes) buf dataLen pos
      else
        deserializeActions fuel slices action (nodes.modifyHead (· ++ [action]))
          buf dataLen pos
    else .ok (nodes, pos)

/-- `deserialize_`, into a list without nodes. -/
def deserializeNodes (slices : Nat) : Reader ObRet UndoStatusList :=
  fun buf dataLen pos => do
    let (cnt, pos) ← unisDecode 0 decodeVi32 buf dataLen pos
    let (nodes, pos) ← deserializeActions dataLen slices .reset [] buf dataLen pos
    return (⟨nodes, cnt.toInt⟩, pos)

def deserialize (slices : Nat) : Reader ObRet UndoStatusList :=
  fun buf dataLen pos => do
    let (version, pos) ← decodeVi64 buf dataLen pos
    let (len, pos) ← decodeVi64 buf dataLen pos
    if version ≠ 1 then .error .versionNotMatch
    else if len.toInt < 0 then .error .errUnexpected
    else if dataLen < len.toNat + pos then .error .deserializeError
    else
      let (list, behind) ← deserializeNodes slices (buf.drop pos) len.toNat 0
      return (list, behind + pos)

end UndoStatusList

/-! Operations. -/

/-- The classes of `TX_OP_MEMBERS`. -/
structure OpCodec (V : Type) where
  serialize : V → Writer ObRet
  serializeSize : V → Nat
  /-- The class of a code, if there is one. -/
  deserialize : BitVec 64 → Option (Reader ObRet V)

/-- `ObTxOp`. -/
structure TxOp (V : Type) where
  opCode : BitVec 64
  opScn : Nat
  opVal : Option V
  deriving DecidableEq

variable {V : Type}

namespace TxOp

def serialize (codec : OpCodec V) (op : TxOp V) : Writer ObRet :=
  (encodeVi64 op.opCode).andThen ((scnSerialize op.opScn).andThen fun bufLen out =>
    match op.opVal with
    | none => .error .errUnexpected
    | some val =>
      if (codec.deserialize op.opCode).isSome then codec.serialize val bufLen out
      else .ok out)

def serializeSize (codec : OpCodec V) (op : TxOp V) : Nat :=
  encodedLengthVi64 op.opCode + scnSerializeSize op.opScn +
    match op.opVal with
    | none => 0
    | some val => if (codec.deserialize op.opCode).isSome then codec.serializeSize val else 0

def deserialize (codec : OpCodec V) (opMemory : Bool) : Reader ObRet (TxOp V) :=
  decodeVi64.andThen fun opCode => scnDeserialize.andThen fun opScn =>
    match codec.deserialize opCode with
    | none => Reader.done ⟨opCode, opScn, none⟩
    | some reader => fun buf dataLen pos =>
      if opMemory = false then .error .allocateMemoryFailed
      else reader.andThen (fun val => Reader.done ⟨opCode, opScn, some val⟩) buf dataLen pos

/-- The loop of `ObTxOpVector::deserialize`. -/
def deserializeAll (codec : OpCodec V) (opMemory : Bool) : Nat → Reader ObRet (List (TxOp V))
  | 0 => Reader.done []
  | count + 1 =>
    (deserialize codec opMemory).andThen fun op =>
      (deserializeAll codec opMemory count).andThen fun rest => Reader.done (op :: rest)

/-- `ObTxOpVector::serialize`. -/
def serializeVector (codec : OpCodec V) (ops : List (TxOp V)) : Writer ObRet :=
  (encodeVi64 (BitVec.ofNat 64 ops.length)).andThen
    (Writer.sequence (ops.map (serialize codec)))

def vectorSerializeSize (codec : OpCodec V) (ops : List (TxOp V)) : Nat :=
  encodedLengthVi64 (BitVec.ofNat 64 ops.length) + (ops.map (serializeSize codec)).sum

/-- `ObTxOpVector::deserialize`. -/
def deserializeVector (codec : OpCodec V) (opMemory : Bool) : Reader ObRet (List (TxOp V)) :=
  decodeVi64.andThen fun count =>
    if count.toInt ≤ 0 then Reader.done []
    else if opMemory = false then fun _ _ _ => .error .allocateMemoryFailed
    else deserializeAll codec opMemory count.toNat

end TxOp

/-- `ObTxDataOp`. -/
structure TxDataOp (V : Type) where
  undoStatusList : UndoStatusList
  txOpList : List (TxOp V)
  deriving DecidableEq

/-- `ObTxData`; `op` is what `op_guard_` holds. -/
structure TxData (V : Type) where
  txId : BitVec 64
  state : BitVec 32
  commitVersion : Nat
  startScn : Nat
  endScn : Nat
  op : Option (TxDataOp V)
  deriving DecidableEq

namespace TxData

/-- The fields of `ObTxCommitData`. -/
def serializeFields (data : TxData V) : Writer ObRet :=
  (transIdSerialize data.txId).andThen ((encodeVi32 data.state).andThen
    ((scnSerialize data.commitVersion).andThen
      ((scnSerialize data.startScn).andThen (scnSerialize data.endScn))))

/-- `serialize_`. -/
def serializeMembers (codec : OpCodec V) (data : TxData V) : Writer ObRet :=
  data.serializeFields.andThen
    (match data.op with
      | none => Writer.done
      | some op => op.undoStatusList.serialize.andThen
          (TxOp.serializeVector codec op.txOpList))

/-- `get_serialize_size_`. -/
def membersSize (codec : OpCodec V) (data : TxData V) : Nat :=
  transIdSerializeSize data.txId + encodedLengthVi32 data.state +
    scnSerializeSize data.commitVersion + scnSerializeSize data.startScn +
    scnSerializeSize data.endScn +
    match data.op with
    | none => 0
    | some op =>
      op.undoStatusList.serializeSize + TxOp.vectorSerializeSize codec op.txOpList

/-- `serialize`.  The members are limited by the length that was computed for
them, not by the length of the buffer. -/
def serialize (codec : OpCodec V) (data : TxData V) : Writer ObRet := fun bufLen out =>
  if bufLen = 0 ∨ bufLen < out.length then .error .invalidArgument
  else do
    let out ← encodeVi64 1 bufLen out
    let out ← encodeVi64 (BitVec.ofNat 64 (data.membersSize codec)) bufLen out
    data.serializeMembers codec (out.length + data.membersSize codec) out

def serializeSize (codec : OpCodec V) (data : TxData V) : Nat :=
  encodedLengthVi64 1 + encodedLengthVi64 (BitVec.ofNat 64 (data.membersSize codec)) +
    data.membersSize codec

/-- `deserialize_` after the fields, when there is more. -/
def deserializeOp (codec : OpCodec V) (slices : Nat) (opMemory : Bool) :
    Reader ObRet (Option (TxDataOp V)) := fun buf dataLen pos =>
  if pos < dataLen then
    -- `init_tx_op` takes a slice
    if slices = 0 then .error .allocateMemoryFailed
    else do
      let (list, pos) ← UndoStatusList.deserialize (slices - 1) buf dataLen pos
      if pos < dataLen then
        let (ops, pos) ← TxOp.deserializeVector codec opMemory buf dataLen pos
        return (some ⟨list, ops⟩, pos)
      else return (some ⟨list, []⟩, pos)
  else .ok (none, pos)

/-- `deserialize_`, into data without operations. -/
def deserializeMembers (codec : OpCodec V) (slices : Nat) (opMemory : Bool) :
    Reader ObRet (TxData V) :=
  transIdDeserialize.andThen fun txId => decodeVi32.andThen fun state =>
    scnDeserialize.andThen fun commitVersion => scnDeserialize.andThen fun startScn =>
      scnDeserialize.andThen fun endScn =>
        (deserializeOp codec slices opMemory).andThen fun op =>
          Reader.done ⟨txId, state, commitVersion, startScn, endScn, op⟩

def deserialize (codec : OpCodec V) (slices : Nat) (opMemory : Bool) :
    Reader ObRet (TxData V) := fun buf dataLen pos =>
  if dataLen = 0 ∨ dataLen < pos then .error .invalidArgument
  else do
    let (version, pos) ← decodeVi64 buf dataLen pos
    if version ≠ 1 then .error .versionNotMatch
    else
      let (len, pos) ← decodeVi64 buf dataLen pos
      if (dataLen : Int) < pos + len.toInt then .error .invalidSize
      else
        deserializeMembers codec slices opMemory buf ((pos : Int) + len.toInt).toNat pos

end TxData

end SeekDB
