/-
Transaction data survives serialization, whatever undo actions were added.

The nodes of the undo list are not serialized, only their actions; they come
back because all nodes but the first are full.
-/
import SeekDB.TxData

namespace SeekDB

open UndoStatusList List Nat WireCodec Serialization PackedStack ByteSlice

/-- The values of an `SCN`: a time stamp or the invalid value. -/
def IsScn (val : Nat) : Prop := val ≤ obMaxScnTsNs ∨ val = obInvalidScnVal

variable {val : Nat}

section

variable (h : IsScn val)

include h

theorem IsScn.toNat_ofNat : (BitVec.ofNat 64 val).toNat = val := by
  apply mod_eq_of_lt
  unfold IsScn obMaxScnTsNs obInvalidScnVal uint64Modulus at h
  omega

theorem IsScn.ne_int64Max : val ≠ 2 ^ 63 - 1 := by
  unfold IsScn obMaxScnTsNs obInvalidScnVal uint64Modulus at h
  omega

theorem writes_scnSerialize :
    (scnSerialize val).Writes (varBytes val) := by
  intro bufLen out hroom
  have hpos := length_pos_of_ne_nil (varBytes_ne_nil val)
  have hwrites := writes_encodeVi64 (BitVec.ofNat 64 val)
  rw [h.toNat_ofNat] at hwrites
  rw [scnSerialize, if_neg (by omega), hwrites bufLen out hroom]

theorem scnSerializeSize_eq :
    scnSerializeSize val = (varBytes val).length := by
  rw [scnSerializeSize, encodedLengthVi64_eq, h.toNat_ofNat]

theorem reads_scnDeserialize :
    scnDeserialize.Reads (varBytes val) val := by
  intro buf dataLen pos hslice hlen
  have hpos := length_pos_of_ne_nil (varBytes_ne_nil val)
  have hreads : decodeVi64.Reads (varBytes val) (BitVec.ofNat 64 val) := by
    apply reads_decodeVi64
    rw [h.toNat_ofNat]
    exact varNat_varBytes val
  rw [scnDeserialize, if_neg (by omega), hreads buf dataLen pos hslice hlen]
  simp only [bind, Except.bind, h.toNat_ofNat, if_neg h.ne_int64Max]
  rfl

end

theorem length_varBytes_le (v : BitVec 64) : (varBytes v.toNat).length ≤ 10 := by
  rw [← encodedLengthVi64_eq]
  unfold encodedLengthVi64
  repeat' split
  all_goals omega

/-! Undo actions. -/

variable {action : UndoAction}

namespace UndoAction

def memberBytes (action : UndoAction) : List UInt8 :=
  varBytes action.undoFrom.rawVal.toNat ++ varBytes action.undoTo.rawVal.toNat

def bytes (action : UndoAction) : List UInt8 := unisBytes 1 action.memberBytes

theorem writes_serialize (action : UndoAction) : action.serialize.Writes action.bytes :=
  writes_unisSerialize ((writes_encodeVi64 _).andThen (writes_encodeVi64 _))

theorem serializeSize_eq (action : UndoAction) : action.serializeSize = action.bytes.length := by
  rw [bytes, length_unisBytes, serializeSize, memberBytes, length_append,
    TxSeq.serializeSize, TxSeq.serializeSize, encodedLengthVi64_eq, encodedLengthVi64_eq]

theorem reads_txSeq {seq : TxSeq} (hvalid : seq.isValid = true) (old : TxSeq) :
    (unisDecode old TxSeq.deserialize).Reads (varBytes seq.rawVal.toNat) seq := by
  apply unisDecode_reads
  · intro buf dataLen pos hslice hlen
    rw [TxSeq.deserialize,
      reads_decodeVi64 (varNat_varBytes seq.rawVal.toNat) buf dataLen pos hslice hlen]
    simp [bind, Except.bind, hvalid]
    rfl
  · exact varBytes_ne_nil _

theorem valid_parts (hvalid : action.isValid = true) :
    action.undoFrom.isValid = true ∧ action.undoTo.isValid = true := by
  simp only [isValid, Bool.and_eq_true] at hvalid
  exact ⟨hvalid.1.1.1, hvalid.1.1.2⟩

theorem reads_deserialize (hvalid : action.isValid = true) (old : UndoAction) :
    (deserialize old).Reads action.bytes action := by
  obtain ⟨hfrom, hto⟩ := valid_parts hvalid
  apply reads_unisDeserialize
  · exact (reads_txSeq hfrom _).andThen
      ((reads_txSeq hto _).andThenDone (UndoAction.mk action.undoFrom))
  · have hleft := length_varBytes_le action.undoFrom.rawVal
    have hright := length_varBytes_le action.undoTo.rawVal
    rw [memberBytes, length_append]
    omega

theorem bytes_ne_nil (action : UndoAction) : action.bytes ≠ [] := by
  simp [bytes, unisBytes, varBytes_ne_nil]

end UndoAction

/-! The undo list. -/

variable {buf : List UInt8} {slices : Nat}

namespace UndoStatusList

theorem length_le_flatMap (actions : List UndoAction) :
    actions.length ≤ (actions.flatMap UndoAction.bytes).length := by
  induction actions with
  | nil => exact Nat.zero_le _
  | cons action =>
    have hpos := length_pos_of_ne_nil action.bytes_ne_nil
    rw [flatMap_cons, length_append, length_cons]
    omega

theorem deserializeActions_round {fuel dataLen pos behind : Nat} {old : UndoAction}
    {nodes : List (List UndoAction)} (hpos : pos < dataLen)
    (hread : unisDecode old (UndoAction.deserialize old) buf dataLen pos = .ok (action, behind)) :
    deserializeActions (fuel + 1) slices old nodes buf dataLen pos =
      if headIsFull nodes then
        if slices = 0 then .error .allocateMemoryFailed
        else deserializeActions fuel (slices - 1) action ([action] :: nodes) buf dataLen behind
      else
        deserializeActions fuel slices action (nodes.modifyHead (· ++ [action]))
          buf dataLen behind := by
  refine (if_pos hpos).trans ?_
  rw [hread]
  rfl

theorem deserializeActions_eq {dataLen : Nat} (actions : List UndoAction)
    (hvalid : ∀ action ∈ actions, action.isValid = true) {fuel pos : Nat} {old : UndoAction}
    {nodes : List (List UndoAction)} (hfuel : actions.length ≤ fuel)
    (hslices : (actions.foldl (push txDataUndoActMaxNumPerNode) nodes).length ≤
      nodes.length + slices) (hslice : Slice buf pos (actions.flatMap UndoAction.bytes))
    (hend : pos + (actions.flatMap UndoAction.bytes).length = dataLen) :
    deserializeActions fuel slices old nodes buf dataLen pos =
      .ok (actions.foldl (push txDataUndoActMaxNumPerNode) nodes, dataLen) := by
  induction actions generalizing fuel slices pos old nodes with
  | nil =>
    obtain rfl : pos = dataLen := hend
    cases fuel with
    | zero | succ => exact if_neg (Nat.lt_irrefl pos)
  | cons action rest ih =>
    obtain ⟨haction, hrest⟩ := forall_mem_cons.mp hvalid
    obtain ⟨fuel, rfl⟩ : ∃ smaller, fuel = smaller + 1 :=
      exists_eq_succ_of_ne_zero (by rw [length_cons] at hfuel; omega)
    rw [length_cons] at hfuel
    rw [flatMap_cons] at hslice hend
    rw [length_append] at hend
    obtain ⟨hfirst, hlater⟩ := slice_append.mp hslice
    have hpos := length_pos_of_ne_nil action.bytes_ne_nil
    have hread : unisDecode old (UndoAction.deserialize old) buf dataLen pos =
        .ok (action, pos + action.bytes.length) :=
      unisDecode_reads (UndoAction.reads_deserialize haction old) action.bytes_ne_nil
        buf dataLen pos hfirst (by omega)
    rw [foldl_cons] at hslices ⊢
    rw [deserializeActions_round (by omega) hread]
    have hpush := push_eq nodes action
    by_cases hfull : headIsFull nodes = true
    · rw [if_pos hfull] at hpush ⊢
      rw [hpush] at hslices ⊢
      have hgrow : nodes.length + 1 ≤
          (rest.foldl (push txDataUndoActMaxNumPerNode) ([action] :: nodes)).length :=
        length_le_foldl_push rest ([action] :: nodes)
      rw [if_neg (by omega)]
      apply ih hrest (by omega) _ hlater (by omega)
      rw [length_cons]
      omega
    · rw [if_neg hfull] at hpush ⊢
      rw [hpush] at hslices ⊢
      apply ih hrest (by omega) _ hlater (by omega)
      rw [length_modifyHead]
      exact hslices

def nodesBytes (list : UndoStatusList) : List UInt8 :=
  varBytes (BitVec.ofInt 32 list.undoNodeCnt).toNat ++ (items list.nodes).flatMap UndoAction.bytes

def bytes (list : UndoStatusList) : List UInt8 :=
  varBytes 1 ++ (varBytes list.nodesBytes.length ++ list.nodesBytes)

theorem writes_serializeNodes (list : UndoStatusList) :
    list.serializeNodes.Writes list.nodesBytes :=
  (writes_encodeVi32 _).andThen
    (Writer.writes_sequence _ _ _ fun action _ => action.writes_serialize)

/-- The size is computed from the first node on, not in the order of the bytes. -/
theorem sum_sizes (nodes : List (List UndoAction)) :
    (nodes.map fun node => (node.map UndoAction.serializeSize).sum).sum =
      ((items nodes).flatMap UndoAction.bytes).length := by
  induction nodes with
  | nil => rfl
  | cons node rest ih =>
    have hnode : (node.map UndoAction.serializeSize).sum =
        (node.flatMap UndoAction.bytes).length := by
      rw [length_flatMap]
      exact congrArg List.sum (map_congr_left fun action _ => action.serializeSize_eq)
    rw [map_cons, sum_cons, ih, hnode, items_cons, flatMap_append, length_append, Nat.add_comm]

theorem serializeNodesSize_eq (list : UndoStatusList) :
    list.serializeNodesSize = list.nodesBytes.length := by
  rw [serializeNodesSize, nodesBytes, encodedLengthVi32_eq, sum_sizes, length_append]

theorem reads_count {list : UndoStatusList} (hlist : list.WellFormed)
    (hcount : list.nodes.length < 2 ^ 31) :
    (BitVec.ofInt 32 list.undoNodeCnt).toInt = list.undoNodeCnt := by
  rw [hlist.count, BitVec.toInt_ofInt]
  exact Int.bmod_eq_of_le (by omega) (by omega)

theorem deserializeNodes_eq {list : UndoStatusList} (hlist : list.WellFormed)
    (hvalid : ∀ action ∈ items list.nodes, action.isValid = true)
    (hcount : list.nodes.length < 2 ^ 31) (hslices : list.nodes.length ≤ slices)
    (hslice : Slice buf 0 list.nodesBytes) :
    deserializeNodes slices buf list.nodesBytes.length 0 = .ok (list, list.nodesBytes.length) := by
  obtain ⟨hcnt, hactions⟩ := slice_append.mp hslice
  have hreadCnt : (unisDecode 0 decodeVi32).Reads
      (varBytes (BitVec.ofInt 32 list.undoNodeCnt).toNat)
      (BitVec.ofInt 32 list.undoNodeCnt) :=
    unisDecode_reads (reads_decodeVi32 _) (varBytes_ne_nil _)
  have hlen : (varBytes (BitVec.ofInt 32 list.undoNodeCnt).toNat).length +
      ((items list.nodes).flatMap UndoAction.bytes).length = list.nodesBytes.length := by
    rw [nodesBytes, length_append]
  have hfuel := length_le_flatMap (items list.nodes)
  have hrebuild := hlist.packed.rebuild
  unfold deserializeNodes
  rw [hreadCnt buf _ 0 hcnt (by omega)]
  simp only [bind, Except.bind]
  rw [deserializeActions_eq (items list.nodes) hvalid (by omega)
    (by rw [hrebuild]; simpa using hslices) hactions (by omega), hrebuild,
    reads_count hlist hcount]
  rfl

section

variable {list : UndoStatusList} (hsize : list.nodesBytes.length < 2 ^ 63)

include hsize

theorem toNat_length : (BitVec.ofNat 64 list.nodesBytes.length).toNat = list.nodesBytes.length := by
  rw [BitVec.toNat_ofNat, mod_eq_of_lt (by omega)]

theorem writes_serialize : list.serialize.Writes list.bytes := by
  intro bufLen out hroom
  have hpos := length_pos_of_ne_nil (varBytes_ne_nil 1)
  have hlen := writes_encodeVi64 (BitVec.ofNat 64 list.serializeNodesSize)
  rw [serializeNodesSize_eq, toNat_length hsize] at hlen
  have hall := (writes_encodeVi64 1).andThen (hlen.andThen list.writes_serializeNodes)
  have hlong : (varBytes 1).length ≤ list.bytes.length := by
    rw [bytes, length_append]
    omega
  rw [serialize, if_neg (by omega), serializeNodesSize_eq]
  exact hall bufLen out hroom

theorem serializeSize_eq : list.serializeSize = list.bytes.length := by
  rw [serializeSize, bytes, serializeNodesSize_eq, encodedLengthVi64_eq, encodedLengthVi64_eq,
    toNat_length hsize, length_append, length_append, Nat.add_assoc]
  rfl

theorem reads_deserialize (hlist : list.WellFormed)
    (hvalid : ∀ action ∈ items list.nodes, action.isValid = true)
    (hcount : list.nodes.length < 2 ^ 31) (hslices : list.nodes.length ≤ slices) :
    (deserialize slices).Reads list.bytes list := by
  intro buf dataLen pos hslice hdata
  rw [bytes] at hslice
  obtain ⟨hversion, hslice⟩ := slice_append.mp hslice
  obtain ⟨hlen, hnodes⟩ := slice_append.mp hslice
  rw [bytes, length_append, length_append] at hdata
  have hreadVersion : decodeVi64.Reads (varBytes 1) 1 :=
    reads_decodeVi64 (varNat_varBytes 1)
  have hreadLen : decodeVi64.Reads (varBytes list.nodesBytes.length)
      (BitVec.ofNat 64 list.nodesBytes.length) := by
    apply reads_decodeVi64
    rw [toNat_length hsize]
    exact varNat_varBytes _
  have hnonneg : ¬ (BitVec.ofNat 64 list.nodesBytes.length).toInt < 0 := by
    rw [BitVec.toInt_eq_toNat_of_lt (by rw [toNat_length hsize]; omega)]
    omega
  unfold deserialize
  rw [hreadVersion buf dataLen pos hversion (by omega)]
  simp only [bind, Except.bind]
  rw [hreadLen buf dataLen _ hlen (by omega)]
  simp only [ne_eq, not_true_eq_false, if_false, if_neg hnonneg, toNat_length hsize]
  rw [if_neg (by omega),
    deserializeNodes_eq hlist hvalid hcount hslices (slice_drop hnodes)]
  simp only [pure, Except.pure, bytes, length_append]
  rw [Nat.add_comm list.nodesBytes.length, Nat.add_assoc, Nat.add_assoc]

end

end UndoStatusList

/-! Operations. -/

variable {V : Type}

/-- The bytes of an object, and that they are written and read back. -/
structure Codes {α : Type} (size : Nat) (writer : Writer ObRet) (reader : Reader ObRet α)
    (a : α) (bytes : List UInt8) : Prop where
  writes : writer.Writes bytes
  length : size = bytes.length
  reads : reader.Reads bytes a

namespace TxOp

/-- An operation whose class reads back what it writes. -/
structure Serializable (codec : OpCodec V) (op : TxOp V) : Prop where
  scn : IsScn op.opScn
  val : ∃ val reader bytes, op.opVal = some val ∧ codec.deserialize op.opCode = some reader ∧
    Codes (codec.serializeSize val) (codec.serialize val) reader val bytes

variable {codec : OpCodec V}

theorem exists_codes {op : TxOp V} (h : op.Serializable codec) :
    ∃ bytes, Codes (serializeSize codec op) (serialize codec op) (deserialize codec true) op
      bytes := by
  obtain ⟨opCode, opScn, opVal⟩ := op
  obtain ⟨hscn, val, reader, bytes, hval, hclass, hcodes⟩ := h
  subst hval
  refine ⟨varBytes opCode.toNat ++ (varBytes opScn ++ bytes), ?_, ?_, ?_⟩
  · refine (writes_encodeVi64 opCode).andThen ((writes_scnSerialize hscn).andThen ?_)
    intro bufLen out hroom
    simp only [hclass, Option.isSome_some, if_true]
    exact hcodes.writes bufLen out hroom
  · simp only [serializeSize, hclass, Option.isSome_some, if_true, encodedLengthVi64_eq,
      scnSerializeSize_eq hscn, hcodes.length, length_append, Nat.add_assoc]
  refine (reads_decodeVi64 (varNat_varBytes _)).andThen
    ((reads_scnDeserialize hscn).andThen ?_)
  have hval := hcodes.reads.andThenDone fun val => TxOp.mk opCode opScn (some val)
  rw [hclass]
  intro buf dataLen pos hslice hlen
  exact hval buf dataLen pos hslice hlen

theorem exists_codes_all {ops : List (TxOp V)} (h : ∀ op ∈ ops, op.Serializable codec) :
    ∃ bytes, Codes (ops.map (serializeSize codec)).sum
      (Writer.sequence (ops.map (serialize codec))) (deserializeAll codec true ops.length) ops
      bytes := by
  induction ops with
  | nil => exact ⟨[], Writer.writes_done, rfl, Reader.reads_done []⟩
  | cons op rest ih =>
    obtain ⟨hop, hrest⟩ := forall_mem_cons.mp h
    obtain ⟨front, hfront⟩ := exists_codes hop
    obtain ⟨back, hback⟩ := ih hrest
    refine ⟨front ++ back, hfront.writes.andThen hback.writes, ?_, ?_⟩
    · rw [map_cons, sum_cons, hfront.length, hback.length, length_append]
    · exact hfront.reads.andThen (hback.reads.andThenDone (List.cons op))

theorem exists_codes_vector {ops : List (TxOp V)} (h : ∀ op ∈ ops, op.Serializable codec)
    (hcount : ops.length < 2 ^ 63) :
    ∃ bytes, bytes ≠ [] ∧ Codes (vectorSerializeSize codec ops) (serializeVector codec ops)
      (deserializeVector codec true) ops bytes := by
  obtain ⟨bytes, hbytes⟩ := exists_codes_all h
  have htoNat : (BitVec.ofNat 64 ops.length).toNat = ops.length := by
    rw [BitVec.toNat_ofNat, mod_eq_of_lt (by omega)]
  have htoInt : (BitVec.ofNat 64 ops.length).toInt = ops.length := by
    rw [BitVec.toInt_eq_toNat_of_lt (by omega), htoNat]
  refine ⟨varBytes (BitVec.ofNat 64 ops.length).toNat ++ bytes, ?_,
    (writes_encodeVi64 _).andThen hbytes.writes, ?_, ?_⟩
  · simp [varBytes_ne_nil]
  · rw [vectorSerializeSize, encodedLengthVi64_eq, hbytes.length, length_append]
  refine (reads_decodeVi64 (varNat_varBytes _)).andThen ?_
  rw [htoInt, htoNat]
  cases ops with
  | nil =>
    have hnil : bytes = [] := length_eq_zero_iff.mp hbytes.length.symm
    rw [hnil]
    exact Reader.reads_done []
  | cons =>
    exact hbytes.reads

end TxOp

namespace TxData

/-- The data can be represented: time stamps are SCNs, operations are those of
the known classes, and counts fit their types. -/
structure Serializable (codec : OpCodec V) (data : TxData V) : Prop where
  commitVersion : IsScn data.commitVersion
  startScn : IsScn data.startScn
  endScn : IsScn data.endScn
  ops : ∀ op ∈ data.op, ∀ txOp ∈ op.txOpList, txOp.Serializable codec
  opCount : ∀ op ∈ data.op, op.txOpList.length < 2 ^ 63
  nodeCount : ∀ op ∈ data.op, op.undoStatusList.nodes.length < 2 ^ 31

/-- The undo list is one that calls have built. -/
def UndoBuilt (data : TxData V) : Prop :=
  ∀ op ∈ data.op, op.undoStatusList.WellFormed ∧
    ∀ action ∈ items op.undoStatusList.nodes, action.isValid = true

variable {codec : OpCodec V} {data : TxData V}

def fieldBytes (data : TxData V) : List UInt8 :=
  unisBytes 1 (varBytes data.txId.toNat) ++ (varBytes data.state.toNat ++
    (varBytes data.commitVersion ++ (varBytes data.startScn ++ varBytes data.endScn)))

theorem writes_serializeFields (h : data.Serializable codec) :
    data.serializeFields.Writes data.fieldBytes :=
  (writes_unisSerialize (writes_encodeVi64 _)).andThen ((writes_encodeVi32 _).andThen
    ((writes_scnSerialize h.commitVersion).andThen
      ((writes_scnSerialize h.startScn).andThen (writes_scnSerialize h.endScn))))

theorem length_fieldBytes (h : data.Serializable codec) :
    data.fieldBytes.length = transIdSerializeSize data.txId + encodedLengthVi32 data.state +
      scnSerializeSize data.commitVersion + scnSerializeSize data.startScn +
      scnSerializeSize data.endScn := by
  rw [scnSerializeSize_eq h.commitVersion, scnSerializeSize_eq h.startScn,
    scnSerializeSize_eq h.endScn, transIdSerializeSize, encodedLengthVi64_eq,
    encodedLengthVi32_eq, ← length_unisBytes]
  simp only [fieldBytes, length_append]
  omega

/-- The part behind the fields. -/
structure OpBytes (codec : OpCodec V) (slices : Nat) (data : TxData V) (bytes : List UInt8) :
    Prop where
  writes : (match data.op with
    | none => Writer.done
    | some op => op.undoStatusList.serialize.andThen
        (TxOp.serializeVector codec op.txOpList)).Writes bytes
  length : (match data.op with
    | none => 0
    | some op => op.undoStatusList.serializeSize +
        TxOp.vectorSerializeSize codec op.txOpList) = bytes.length
  reads : (deserializeOp codec slices true).ReadsAll bytes data.op

section

variable (h : data.Serializable codec)

include h

theorem exists_opBytes (hundo : data.UndoBuilt)
    (hsize : data.membersSize codec < 2 ^ 63)
    (hslices : ∀ op ∈ data.op, op.undoStatusList.nodes.length < slices) :
    ∃ bytes, OpBytes codec slices data bytes := by
  obtain ⟨txId, state, commitVersion, startScn, endScn, op⟩ := data
  cases op with
  | none =>
    refine ⟨[], Writer.writes_done, rfl, ?_⟩
    intro buf pos _
    exact if_neg (Nat.lt_irrefl pos)
  | some op =>
    obtain ⟨hlist, hvalid⟩ := hundo op rfl
    obtain ⟨vector, hne, hvector⟩ := TxOp.exists_codes_vector (h.ops op rfl)
      (h.opCount op rfl)
    have hnodes := hslices op rfl
    have hbound : op.undoStatusList.nodesBytes.length < 2 ^ 63 := by
      have hle : op.undoStatusList.serializeNodesSize ≤
          op.undoStatusList.serializeSize := Nat.le_add_left _ _
      rw [UndoStatusList.serializeNodesSize_eq] at hle
      simp only [membersSize] at hsize
      omega
    have hread := UndoStatusList.reads_deserialize hbound hlist hvalid
      (h.nodeCount op rfl) (by omega : op.undoStatusList.nodes.length ≤ slices - 1)
    refine ⟨op.undoStatusList.bytes ++ vector,
      (UndoStatusList.writes_serialize hbound).andThen hvector.writes, ?_, ?_⟩
    · rw [length_append]
      exact congrArg₂ _ (UndoStatusList.serializeSize_eq hbound) hvector.length
    intro buf pos hslice
    obtain ⟨hfirst, hsecond⟩ := slice_append.mp hslice
    have hpos := length_pos_of_ne_nil hne
    rw [length_append]
    unfold deserializeOp
    rw [if_pos (by omega), if_neg (by omega), hread buf _ pos hfirst (by omega)]
    simp only [bind, Except.bind]
    rw [if_pos (by omega), hvector.reads buf _ _ hsecond (by omega)]
    simp only [pure, Except.pure, Nat.add_assoc]

theorem reads_fields {bytes : List UInt8}
    (hop : OpBytes codec slices data bytes) :
    (deserializeMembers codec slices true).ReadsAll (data.fieldBytes ++ bytes) data := by
  have htxId : transIdDeserialize.Reads (unisBytes 1 (varBytes data.txId.toNat)) data.txId := by
    apply reads_unisDeserialize
    · exact unisDecode_reads (reads_decodeVi64 (varNat_varBytes _)) (varBytes_ne_nil _)
    · have hle := length_varBytes_le data.txId
      omega
  have hdone := hop.reads.andThenDone fun op =>
    TxData.mk data.txId data.state data.commitVersion data.startScn data.endScn op
  simp only [fieldBytes, append_assoc]
  exact htxId.andThenAll ((reads_decodeVi32 data.state).andThenAll
    ((reads_scnDeserialize h.commitVersion).andThenAll ((reads_scnDeserialize h.startScn).andThenAll
        ((reads_scnDeserialize h.endScn).andThenAll hdone))))

theorem round_trip (hundo : data.UndoBuilt) {bufLen : Nat}
    {out : List UInt8} (hslices : ∀ op ∈ data.op, op.undoStatusList.nodes.length < slices)
    (hbuf : bufLen < 2 ^ 63) (hroom : out.length + data.serializeSize codec ≤ bufLen) :
    ∃ bytes, data.serialize codec bufLen out = .ok (out ++ bytes) ∧
      (deserialize codec slices true).Reads bytes data := by
  have hsize : data.membersSize codec ≤ data.serializeSize codec := Nat.le_add_left _ _
  obtain ⟨tail, htail⟩ := exists_opBytes h hundo (by omega) hslices
  have hlength : data.membersSize codec = (data.fieldBytes ++ tail).length := by
    rw [length_append, length_fieldBytes h, ← htail.length]
    rfl
  have htoNat : (BitVec.ofNat 64 (data.membersSize codec)).toNat = data.membersSize codec := by
    rw [BitVec.toNat_ofNat, mod_eq_of_lt (by omega)]
  have htoInt : (BitVec.ofNat 64 (data.membersSize codec)).toInt = data.membersSize codec := by
    rw [BitVec.toInt_eq_toNat_of_lt (by omega), htoNat]
  have hone := length_pos_of_ne_nil (varBytes_ne_nil 1)
  refine ⟨varBytes 1 ++ (varBytes (data.membersSize codec) ++ (data.fieldBytes ++ tail)), ?_, ?_⟩
  · have hversion := writes_encodeVi64 1 bufLen out
    have hlen := writes_encodeVi64 (BitVec.ofNat 64 (data.membersSize codec)) bufLen
    rw [htoNat] at hlen
    rw [serializeSize, encodedLengthVi64_eq, encodedLengthVi64_eq, htoNat] at hroom
    change out.length + ((varBytes 1).length + _ + _) ≤ _ at hroom
    have hmembers := (writes_serializeFields h).andThen htail.writes
    unfold serialize
    rw [if_neg (by omega), hversion (by change _ + (varBytes 1).length ≤ _; omega)]
    simp only [bind, Except.bind]
    rw [hlen _ (by rw [length_append]; change _ + (varBytes 1).length + _ ≤ _; omega)]
    refine (hmembers _ _ (by rw [← hlength])).trans ?_
    simp only [append_assoc]
    rfl
  · intro buf dataLen pos hslice hdata
    obtain ⟨hversion, hslice⟩ := slice_append.mp hslice
    obtain ⟨hlen, hmembers⟩ := slice_append.mp hslice
    rw [length_append, length_append, ← hlength] at hdata ⊢
    have hreadVersion : decodeVi64.Reads (varBytes 1) 1 :=
      reads_decodeVi64 (varNat_varBytes 1)
    have hreadLen : decodeVi64.Reads (varBytes (data.membersSize codec))
        (BitVec.ofNat 64 (data.membersSize codec)) := by
      apply reads_decodeVi64
      rw [htoNat]
      exact varNat_varBytes _
    unfold deserialize
    rw [if_neg (by omega), hreadVersion buf dataLen pos hversion (by omega)]
    simp only [bind, Except.bind, ne_eq, not_true_eq_false, if_false]
    rw [hreadLen buf dataLen _ hlen (by omega)]
    simp only [htoInt]
    rw [if_neg (by omega)]
    have hread := reads_fields h htail buf _ hmembers
    rw [← hlength] at hread
    have hend : ∀ n : Nat, ((n : Int) + (data.membersSize codec : Int)).toNat =
        n + data.membersSize codec := by
      intro n
      omega
    rw [hend, hread, Nat.add_assoc, Nat.add_assoc]

end

end TxData

/-- Undo actions are never forgotten as long as every call finds a node when it
needs one; the nodes are packed and counted, and all of it survives being
serialized into a buffer with room and read back. -/
theorem undo_actions_kept (calls : List AddUndo) (hcalls : reset.Served calls) :
    (∀ seqNo, (reset.addAll calls).isContain seqNo = true ↔
      ∃ call ∈ calls, call.action.isContain seqNo = true) ∧
    (reset.addAll calls).undoNodeCnt =
      (reset.addAll calls).nodes.length ∧
    (∀ node ∈ (reset.addAll calls).nodes.tail, node.length = txDataUndoActMaxNumPerNode) ∧
    ∀ (V : Type) (codec : OpCodec V) (data : TxData V) (op : TxDataOp V),
      data.op = some op → op.undoStatusList = reset.addAll calls →
      data.Serializable codec → ∀ (slices bufLen : Nat) (out : List UInt8),
      op.undoStatusList.nodes.length < slices → bufLen < 2 ^ 63 →
      out.length + data.serializeSize codec ≤ bufLen →
      ∃ bytes, data.serialize codec bufLen out = .ok (out ++ bytes) ∧
        ∀ rest, TxData.deserialize codec slices true (out ++ bytes ++ rest)
          (out ++ bytes ++ rest).length out.length = .ok (data, (out ++ bytes).length) := by
  have hlist := addAll_wellFormed wellFormed_reset hcalls
  refine ⟨fun seqNo => ?_, hlist.count, hlist.packed.full, ?_⟩
  · rw [addAll_isContain wellFormed_reset hcalls]
    simp [isContain, reset]
  intro V codec data op hop hbuilt hdata slices bufLen out hslices hbuf hroom
  have honly : ∀ other ∈ data.op, other = op := by
    intro other hother
    exact (Option.some.inj (hop.symm.trans hother)).symm
  have hundo : data.UndoBuilt := by
    intro other hother
    rw [honly other hother, hbuilt]
    refine ⟨hlist, addAll_valid wellFormed_reset hcalls ?_⟩
    simp [reset]
  have henough : ∀ other ∈ data.op, other.undoStatusList.nodes.length < slices := by
    intro other hother
    rw [honly other hother]
    exact hslices
  obtain ⟨bytes, hwrite, hread⟩ := TxData.round_trip hdata hundo henough hbuf hroom
  refine ⟨bytes, hwrite, fun rest => ?_⟩
  have hresult := hread (out ++ bytes ++ rest) (out ++ bytes ++ rest).length out.length
    (slice_of_append out bytes rest) (by simp)
  rw [hresult, length_append]

/-- An action of branch 0 up to `undoFrom`, for which the allocator has a node
or not. -/
def undoCall (undoFrom undoTo : Nat) (nodeAvailable : Bool) : AddUndo :=
  ⟨⟨.ofParts undoFrom 0, .ofParts undoTo 0⟩, false, nodeAvailable⟩

/-- Values that are never stored. -/
def noOps : OpCodec Empty := ⟨Empty.elim, Empty.elim, fun _ => none⟩

/-- Only the first action needs a node; the third one swallows the second one and
the fourth one is in it. -/
def mergedCalls : List AddUndo :=
  [undoCall 15 11 true, undoCall 25 21 false, undoCall 30 20 false, undoCall 28 22 false]

def committedData : TxData Empty :=
  ⟨7, 1, 30, 10, 40, some ⟨reset.addAll mergedCalls, []⟩⟩

theorem committedData_serializable : committedData.Serializable noOps where
  commitVersion := .inl (by decide)
  startScn := .inl (by decide)
  endScn := .inl (by decide)
  ops := by
    rintro op ⟨rfl⟩ txOp hmem
    cases hmem
  opCount := by
    rintro op ⟨rfl⟩
    decide
  nodeCount := by
    rintro op ⟨rfl⟩
    decide +kernel

theorem undo_actions_kept_merged :
    (reset.addAll mergedCalls).nodes =
        [[(undoCall 15 11 true).action, (undoCall 30 20 false).action]] ∧
      (reset.addAll mergedCalls).isContain (.ofParts 23 3) = true ∧
      ∃ bytes, committedData.serialize noOps 100 [] = .ok ([] ++ bytes) ∧
        ∀ rest, TxData.deserialize noOps 2 true ([] ++ bytes ++ rest)
          ([] ++ bytes ++ rest).length 0 = .ok (committedData, ([] ++ bytes).length) :=
  have hkept := undo_actions_kept mergedCalls (by decide +kernel)
  ⟨by decide +kernel,
    (hkept.1 _).mpr ⟨undoCall 25 21 false, by decide +kernel, by decide +kernel⟩,
    hkept.2.2.2 Empty noOps committedData _ rfl rfl committedData_serializable 2 100 []
      (by decide +kernel) (by decide) (by decide +kernel)⟩

/-- Seven actions that fill a node, and one more. -/
def eightCalls : List AddUndo :=
  [undoCall 15 11 true, undoCall 25 21 true, undoCall 35 31 true, undoCall 45 41 true,
    undoCall 55 51 true, undoCall 65 61 true, undoCall 75 71 true, undoCall 85 81 true]

/-- The last action is merged into one that then finds no node: the call fails
and both are lost. -/
theorem undo_action_lost :
    (reset.addAll eightCalls).isContain (.ofParts 83 0) = true ∧
      ((reset.addAll eightCalls).addUndoAction (undoCall 86 80 false)).1 =
        .allocateMemoryFailed ∧
      ((reset.addAll eightCalls).addUndoAction
        (undoCall 86 80 false)).2.isContain (.ofParts 83 0) = false := by
  refine ⟨?_, ?_, ?_⟩ <;> decide +kernel

end SeekDB
