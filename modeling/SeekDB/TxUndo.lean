/-
Undo actions of a transaction and the list that keeps them
(ob_tx_seq.h, ob_trans_define.h, ob_tx_data_define.cpp).

A node is the list of the first `size_` entries of its array; the nodes are
listed from `head_` on.  Locks are left out.  Whether the allocator has another
node is an argument of the call.
-/
import SeekDB.PalfDefine
import SeekDB.PackedStack

namespace SeekDB

open PackedStack List

/-- `ObTxSEQ`. -/
structure TxSeq where
  rawVal : BitVec 64
  deriving Repr, DecidableEq

namespace TxSeq

def maxSeq : BitVec 64 := (1 <<< 47) - 1

def maxBranch : BitVec 64 := (1 <<< 15) - 1

def currentFormatMask : BitVec 64 := 1 <<< 62

def seqShift : Nat := 15

def reset : TxSeq := ⟨0⟩

/-- `ObTxSEQ(seq, branch)`. -/
def ofParts (seq branch : Nat) : TxSeq :=
  ⟨currentFormatMask ||| BitVec.ofNat 64 branch ||| (BitVec.ofNat 64 seq <<< seqShift)⟩

def getSeq (seq : TxSeq) : Nat := ((seq.rawVal >>> seqShift) &&& maxSeq).toNat

def getBranch (seq : TxSeq) : Nat := (seq.rawVal &&& maxBranch).toNat

def isCurrentFormat (seq : TxSeq) : Bool :=
  decide (0 < seq.rawVal.toInt) && decide (seq.rawVal &&& currentFormatMask ≠ 0)

def isValid (seq : TxSeq) : Bool := seq.isCurrentFormat && decide (0 < seq.getSeq)

end TxSeq

/-- `ObUndoAction`: the range (`undo_to_`, `undo_from_`]. -/
structure UndoAction where
  undoFrom : TxSeq
  undoTo : TxSeq
  deriving Repr, DecidableEq

variable {action : UndoAction}

namespace UndoAction

def reset : UndoAction := ⟨.reset, .reset⟩

def isValid (action : UndoAction) : Bool :=
  action.undoFrom.isValid && action.undoTo.isValid &&
    decide (action.undoFrom.getBranch = action.undoTo.getBranch) &&
    decide (action.undoTo.getSeq < action.undoFrom.getSeq)

/-- `is_contain` of a sequence number; branch 0 stands for all branches. -/
def isContain (action : UndoAction) (seqNo : TxSeq) : Bool :=
  decide (action.undoTo.getBranch = 0 ∨ action.undoTo.getBranch = seqNo.getBranch) &&
    decide (action.undoTo.getSeq < seqNo.getSeq) &&
    decide (seqNo.getSeq ≤ action.undoFrom.getSeq)

/-- `is_contain` of another action. -/
def isContainAction (action other : UndoAction) : Bool :=
  decide (action.undoTo.getBranch = 0 ∨ action.undoTo.getBranch = other.undoTo.getBranch) &&
    decide (other.undoFrom.getSeq ≤ action.undoFrom.getSeq) &&
    decide (action.undoTo.getSeq ≤ other.undoTo.getSeq)

theorem isContain_of_action {other : UndoAction} {seqNo : TxSeq}
    (haction : action.isContainAction other = true) (hseq : other.isContain seqNo = true) :
    action.isContain seqNo = true := by
  simp only [isContainAction, isContain, Bool.and_eq_true, decide_eq_true_eq]
    at haction hseq ⊢
  obtain ⟨⟨hbranch, hfrom⟩, hto⟩ := haction
  obtain ⟨⟨hbranch', hto'⟩, hfrom'⟩ := hseq
  refine ⟨⟨?_, by omega⟩, by omega⟩
  rcases hbranch with hzero | hsame
  · exact .inl hzero
  · rw [hsame]
    exact hbranch'

end UndoAction

/-- `TX_DATA_UNDO_ACT_MAX_NUM_PER_NODE`. -/
def txDataUndoActMaxNumPerNode : Nat := 128 / 16 - 1

structure UndoStatusList where
  nodes : List (List UndoAction)
  undoNodeCnt : Int
  deriving Repr, DecidableEq

namespace UndoStatusList

def reset : UndoStatusList := ⟨[], 0⟩

/-- `is_contain_`. -/
def isContain (list : UndoStatusList) (seqNo : TxSeq) : Bool :=
  list.nodes.any fun node => node.any fun action => action.isContain seqNo

/-- The inner loop of `merge_undo_actions_`, over the actions of a node from the
last one on. -/
def mergeActions : List UndoAction → UndoAction → List UndoAction × UndoAction
  | [], new => ([], new)
  | last :: rest, new =>
    if new.isContainAction last then mergeActions rest new
    else if last.isContainAction new then (last :: rest, .reset)
    else (last :: rest, new)

def mergeNode (node : List UndoAction) (new : UndoAction) : List UndoAction × UndoAction :=
  let (kept, new) := mergeActions node.reverse new
  (kept.reverse, new)

/-- `merge_undo_actions_`. -/
def mergeUndoActions (undoNodeCnt : Int) :
    List (List UndoAction) → UndoAction → ObRet × UndoStatusList × UndoAction
  | [], new => (.success, ⟨[], undoNodeCnt⟩, new)
  | node :: rest, new =>
    let (kept, new) := mergeNode node new
    if kept.isEmpty then
      if undoNodeCnt ≤ 0 then (.errUnexpected, ⟨rest, undoNodeCnt⟩, new)
      else mergeUndoActions (undoNodeCnt - 1) rest new
    else (.success, ⟨kept :: rest, undoNodeCnt⟩, new)

/-- The arguments of `add_undo_action` and whether the allocator has a node.
`undoNode` says that the caller passes a node that may be used. -/
structure AddUndo where
  action : UndoAction
  undoNode : Bool
  nodeAvailable : Bool
  deriving Repr, DecidableEq

variable {list : UndoStatusList} {calls : List AddUndo} {call : AddUndo}

/-- There is no node with room for another action. -/
def headIsFull : List (List UndoAction) → Bool
  | [] => true
  | node :: _ => decide (txDataUndoActMaxNumPerNode ≤ node.length)

/-- `add_undo_action`. -/
def addUndoAction (list : UndoStatusList) (call : AddUndo) : ObRet × UndoStatusList :=
  match mergeUndoActions list.undoNodeCnt list.nodes call.action with
  | (.success, merged, new) =>
    if new.isValid = false then (.success, merged)
    else if headIsFull merged.nodes then
      if call.undoNode ∨ call.nodeAvailable then
        (.success, ⟨[new] :: merged.nodes, merged.undoNodeCnt + 1⟩)
      else (.allocateMemoryFailed, merged)
    else (.success, ⟨merged.nodes.modifyHead (· ++ [new]), merged.undoNodeCnt⟩)
  | (ret, merged, _) => (ret, merged)

/-- A node is there if the action left over by the merge needs a new one. -/
def FindsNode (list : UndoStatusList) (call : AddUndo) : Prop :=
  let (_, merged, new) := mergeUndoActions list.undoNodeCnt list.nodes call.action
  new.isValid = true → headIsFull merged.nodes = true →
    call.undoNode = true ∨ call.nodeAvailable = true

instance (list : UndoStatusList) (call : AddUndo) : Decidable (list.FindsNode call) :=
  inferInstanceAs (Decidable (_ → _ → _ ∨ _))

/-- The list after the calls, whatever they return. -/
def addAll (list : UndoStatusList) (calls : List AddUndo) : UndoStatusList :=
  calls.foldl (fun list call => (list.addUndoAction call).2) list

/-! What merging does to the actions in the order of their arrival. -/

section

variable {nodes : List (List UndoAction)}

/-- The new action, unless the newest one that is left contains it. -/
def absorbed (new : UndoAction) (newest : Option UndoAction) : UndoAction :=
  if newest.any (fun last => last.isContainAction new) then .reset else new

theorem mergeActions_eq (actions : List UndoAction) (new : UndoAction) : mergeActions actions new =
      (actions.dropWhile new.isContainAction,
        absorbed new (actions.dropWhile new.isContainAction).head?) := by
  induction actions with
  | nil => rfl
  | cons last rest ih =>
    unfold mergeActions
    by_cases hpop : new.isContainAction last = true
    · rw [if_pos hpop, ih, dropWhile_cons_of_pos hpop]
    rw [if_neg hpop, dropWhile_cons_of_neg hpop]
    unfold absorbed
    rw [List.head?_cons, Option.any_some]
    split <;> rfl

theorem mergeNode_eq (node : List UndoAction) (new : UndoAction) : mergeNode node new =
      (node.rdropWhile new.isContainAction,
        absorbed new (node.rdropWhile new.isContainAction).getLast?) := by
  unfold mergeNode
  rw [mergeActions_eq]
  simp only [List.rdropWhile, List.getLast?_reverse]

theorem rdropWhile_append {α : Type} (p : α → Bool) (front back : List α) :
    (front ++ back).rdropWhile p =
      if back.rdropWhile p = [] then front.rdropWhile p else front ++ back.rdropWhile p := by
  unfold List.rdropWhile
  rw [reverse_append, dropWhile_append]
  by_cases hempty : back.reverse.dropWhile p = [] <;> simp [hempty]

theorem mergeUndoActions_spec (new : UndoAction) (h : Packed txDataUndoActMaxNumPerNode nodes) :
    ∃ kept : List (List UndoAction),
      mergeUndoActions nodes.length nodes new =
        (.success, ⟨kept, kept.length⟩, absorbed new (items kept).getLast?) ∧
      Packed txDataUndoActMaxNumPerNode kept ∧
      items kept = (items nodes).rdropWhile new.isContainAction := by
  induction nodes with
  | nil => exact ⟨[], rfl, h, rfl⟩
  | cons node rest ih =>
    unfold mergeUndoActions
    rw [mergeNode_eq]
    by_cases hempty : node.rdropWhile new.isContainAction = []
    · -- the node is freed; nothing in it has absorbed the new action
      obtain ⟨kept, hmerge, hpacked, hitems⟩ := ih h.tail
      refine ⟨kept, ?_, hpacked, ?_⟩
      · have hlen : ((node :: rest).length : Int) - 1 = rest.length := by
          rw [length_cons]
          omega
        have hpos : ¬ ((node :: rest).length : Int) ≤ 0 := by omega
        rw [hempty]
        simp only [isEmpty_nil, if_true, if_neg hpos, hlen]
        exact hmerge
      · rw [hitems, items_cons, rdropWhile_append, if_pos hempty]
    · have hshort : (node.rdropWhile new.isContainAction).length ≤ node.length :=
        (List.rdropWhile_prefix _ node).length_le
      refine ⟨node.rdropWhile new.isContainAction :: rest, ?_, ?_, ?_⟩
      · have hlast : (items (node.rdropWhile new.isContainAction :: rest)).getLast? =
            (node.rdropWhile new.isContainAction).getLast? := by
          rw [items_cons, List.getLast?_append_of_ne_nil _ hempty]
        rw [hlast]
        simp [hempty]
      · exact h.replaceHead hempty
          (Nat.le_trans hshort (h.length_le node mem_cons_self))
      · rw [items_cons, items_cons, rdropWhile_append, if_neg hempty]

end

/-! The list after a call. -/

/-- The nodes are packed and counted. -/
structure WellFormed (list : UndoStatusList) : Prop where
  packed : Packed txDataUndoActMaxNumPerNode list.nodes
  count : list.undoNodeCnt = list.nodes.length

theorem wellFormed_reset : reset.WellFormed := ⟨.nil, rfl⟩

theorem isContain_iff {seqNo : TxSeq} : list.isContain seqNo = true ↔
      ∃ action ∈ items list.nodes, action.isContain seqNo = true := by
  unfold isContain items
  simp only [any_eq_true, mem_flatten, mem_reverse]
  constructor
  · rintro ⟨node, hnode, action, haction, hcontain⟩
    exact ⟨action, ⟨node, hnode, haction⟩, hcontain⟩
  · rintro ⟨action, ⟨node, hnode, haction⟩, hcontain⟩
    exact ⟨node, hnode, action, haction, hcontain⟩

theorem push_eq (nodes : List (List UndoAction)) (action : UndoAction) :
    push txDataUndoActMaxNumPerNode nodes action =
      if headIsFull nodes then [action] :: nodes
      else nodes.modifyHead (· ++ [action]) := by
  cases nodes with
  | nil => rfl
  | cons node =>
    by_cases hfull : txDataUndoActMaxNumPerNode ≤ node.length
    · rw [push_full hfull, headIsFull, if_pos (decide_eq_true hfull)]
    · rw [push_room hfull, headIsFull, if_neg (by simpa using hfull)]
      rfl

section

variable (hlist : list.WellFormed) (hvalid : call.action.isValid = true)
  (hnode : list.FindsNode call)

include hlist hvalid hnode

theorem addUndoAction_cases :
    ∃ kept, Packed txDataUndoActMaxNumPerNode kept ∧
      items kept = (items list.nodes).rdropWhile call.action.isContainAction ∧
      ((∃ last ∈ items kept, last.isContainAction call.action = true ∧
          list.addUndoAction call = (.success, ⟨kept, kept.length⟩)) ∨
        ∃ nodes, nodes = push txDataUndoActMaxNumPerNode kept call.action ∧
          list.addUndoAction call = (.success, ⟨nodes, nodes.length⟩)) := by
  obtain ⟨kept, hmerge, hpacked, hitems⟩ :=
    mergeUndoActions_spec call.action hlist.packed
  refine ⟨kept, hpacked, hitems, ?_⟩
  rw [FindsNode, hlist.count, hmerge] at hnode
  rw [addUndoAction, hlist.count, hmerge]
  unfold absorbed at hnode ⊢
  dsimp only at hnode ⊢
  split
  · rename_i hany
    obtain ⟨last, hlast, hcontain⟩ := (Option.any_eq_true _ _).mp hany
    exact .inl ⟨last, mem_of_getLast? hlast, hcontain, rfl⟩
  · rename_i hany
    rw [if_neg hany] at hnode
    refine .inr ⟨_, rfl, ?_⟩
    rw [push_eq, if_neg (by simp [hvalid])]
    by_cases hfull : headIsFull kept = true
    · simp [hfull, hnode hvalid hfull]
    · simp [hfull]

theorem addUndoAction_wellFormed :
    (list.addUndoAction call).1 = .success ∧ (list.addUndoAction call).2.WellFormed := by
  obtain ⟨kept, hpacked, -, ⟨last, -, -, hadd⟩ | ⟨nodes, rfl, hadd⟩⟩ :=
    addUndoAction_cases hlist hvalid hnode
  · rw [hadd]
    exact ⟨rfl, hpacked, rfl⟩
  · rw [hadd]
    exact ⟨rfl, hpacked.push (by decide), rfl⟩

theorem mem_of_addUndoAction (hmem : action ∈ items (list.addUndoAction call).2.nodes) :
    action ∈ items list.nodes ∨ action = call.action := by
  obtain ⟨kept, -, hitems, hadd⟩ := addUndoAction_cases hlist hvalid hnode
  have hkept : ∀ action ∈ items kept, action ∈ items list.nodes := by
    rw [hitems]
    exact fun action hmem => (List.rdropWhile_prefix _ _).mem hmem
  rcases hadd with ⟨last, -, -, hadd⟩ | ⟨nodes, rfl, hadd⟩
  · rw [hadd] at hmem
    exact .inl (hkept action hmem)
  rw [hadd] at hmem
  simp only [items_push, mem_append, mem_singleton] at hmem
  rcases hmem with hmem | rfl
  · exact .inl (hkept action hmem)
  · exact .inr rfl

/-- Popped actions are in the new one, and a new one that is dropped is in an
action that stays. -/
theorem exists_covering
    (hadded : action ∈ items list.nodes ∨ action = call.action) :
    ∃ cover ∈ items (list.addUndoAction call).2.nodes,
      ∀ seqNo, action.isContain seqNo = true → cover.isContain seqNo = true := by
  obtain ⟨kept, -, hitems, hadd⟩ := addUndoAction_cases hlist hvalid hnode
  have hsplit : items kept ++ (items list.nodes).rtakeWhile call.action.isContainAction =
      items list.nodes := by
    rw [hitems, rdropWhile_append_rtakeWhile]
  have hpopped : action ∈ items kept ∨
      ∀ seqNo, action.isContain seqNo = true → call.action.isContain seqNo = true := by
    rcases hadded with hmem | rfl
    · rw [← hsplit] at hmem
      rcases mem_append.mp hmem with hmem | hmem
      · exact .inl hmem
      · exact .inr fun _ => UndoAction.isContain_of_action (mem_rtakeWhile_imp hmem)
    · exact .inr fun _ hseq => hseq
  rcases hadd with ⟨last, hlast, hcontain, hadd⟩ | ⟨nodes, rfl, hadd⟩
  · rw [hadd]
    rcases hpopped with hmem | hin
    · exact ⟨action, hmem, fun _ hseq => hseq⟩
    · exact ⟨last, hlast, fun seqNo hseq =>
        UndoAction.isContain_of_action hcontain (hin seqNo hseq)⟩
  rw [hadd]
  simp only [items_push, mem_append, mem_singleton]
  rcases hpopped with hmem | hin
  · exact ⟨action, .inl hmem, fun _ hseq => hseq⟩
  · exact ⟨call.action, .inr rfl, hin⟩

theorem addUndoAction_isContain (seqNo : TxSeq) :
    (list.addUndoAction call).2.isContain seqNo = true ↔
      list.isContain seqNo = true ∨ call.action.isContain seqNo = true := by
  rw [isContain_iff, isContain_iff]
  constructor
  · rintro ⟨action, hmem, hseq⟩
    rcases mem_of_addUndoAction hlist hvalid hnode hmem with hmem | rfl
    · exact .inl ⟨action, hmem, hseq⟩
    · exact .inr hseq
  rintro (⟨action, hmem, hseq⟩ | hseq)
  · obtain ⟨cover, hcover, hin⟩ := exists_covering hlist hvalid hnode (.inl hmem)
    exact ⟨cover, hcover, hin seqNo hseq⟩
  · obtain ⟨cover, hcover, hin⟩ := exists_covering hlist hvalid hnode (.inr rfl)
    exact ⟨cover, hcover, hin seqNo hseq⟩

end

/-- Calls with valid actions, each of which finds a node when it needs one. -/
def Served : UndoStatusList → List AddUndo → Prop
  | _, [] => True
  | list, call :: rest =>
    call.action.isValid = true ∧ list.FindsNode call ∧ (list.addUndoAction call).2.Served rest

instance decidableServed : (list : UndoStatusList) → (calls : List AddUndo) →
    Decidable (list.Served calls)
  | _, [] => inferInstanceAs (Decidable True)
  | list, call :: rest =>
    have := decidableServed (list.addUndoAction call).2 rest
    inferInstanceAs (Decidable (_ ∧ _ ∧ _))

section

variable (hlist : list.WellFormed)

include hlist

theorem addAll_wellFormed (hcalls : list.Served calls) : (list.addAll calls).WellFormed := by
  induction calls generalizing list with
  | nil => exact hlist
  | cons call rest ih =>
    obtain ⟨hvalid, hnode, hrest⟩ := hcalls
    exact ih (addUndoAction_wellFormed hlist hvalid hnode).2 hrest

theorem addAll_isContain (hcalls : list.Served calls) (seqNo : TxSeq) :
    (list.addAll calls).isContain seqNo = true ↔ list.isContain seqNo = true ∨
      ∃ call ∈ calls, call.action.isContain seqNo = true := by
  induction calls generalizing list with
  | nil => simp [addAll]
  | cons call rest ih =>
    obtain ⟨hvalid, hnode, hrest⟩ := hcalls
    have hstep := addUndoAction_isContain hlist hvalid hnode seqNo
    have hlater := ih (addUndoAction_wellFormed hlist hvalid hnode).2 hrest
    rw [exists_mem_cons_iff, ← or_assoc, ← hstep]
    exact hlater

theorem addAll_valid (hcalls : list.Served calls)
    (hvalid : ∀ action ∈ items list.nodes, action.isValid = true) :
    ∀ action ∈ items (list.addAll calls).nodes, action.isValid = true := by
  induction calls generalizing list with
  | nil => exact hvalid
  | cons call rest ih =>
    obtain ⟨hcall, hnode, hrest⟩ := hcalls
    apply ih (addUndoAction_wellFormed hlist hcall hnode).2 hrest
    intro action hmem
    rcases mem_of_addUndoAction hlist hcall hnode hmem with hmem | rfl
    · exact hvalid action hmem
    · exact hcall

end

end UndoStatusList

end SeekDB
