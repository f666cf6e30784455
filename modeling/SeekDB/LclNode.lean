/-
The deadlock detector of the LCL scheme (storage/deadlock/ob_lcl_scheme): detectors push
their LCL value and the smallest label they know to those they wait for; a detector that
gets its own label back starts a message that collects the cycle.

A section under the lock of a node is one step.  What a thread still has to do between two
sections is a task, and the threads read the clock where the code does.  The nodes have no
block callbacks, no parents and no timeout.
-/
import Mathlib
import SeekDB.Execution

universe u

namespace SeekDB.Lcl

/-! ### Priorities and labels -/

inductive PriorityRange where
  | extremelyLow
  | low
  | normal
  | high
  | extremelyHigh
  deriving Repr, DecidableEq

def PriorityRange.toInt : PriorityRange → Int
  | .extremelyLow => -2
  | .low => -1
  | .normal => 0
  | .high => 1
  | .extremelyHigh => 2

structure ObDetectorPriority where
  priorityRange : PriorityRange
  priorityValue : UInt64
  deriving Repr, DecidableEq

/-- `INVALID_VALUE`, the largest `int64_t`. -/
def invalidValue : Nat := 2 ^ 63 - 1

namespace ObDetectorPriority

def isValid (p : ObDetectorPriority) : Bool := p.priorityValue.toNat ≠ invalidValue

def lt (p q : ObDetectorPriority) : Bool :=
  if p.priorityRange.toInt < q.priorityRange.toInt then true
  else if p.priorityRange = q.priorityRange then decide (p.priorityValue < q.priorityValue)
  else false

/-- What `if_self_has_lowest_priority_` starts from. -/
def highest : ObDetectorPriority := ⟨.extremelyHigh, UInt64.ofNat (2 ^ 64 - 1)⟩

end ObDetectorPriority

structure ObLCLLabel where
  id : UInt64
  priority : ObDetectorPriority
  deriving Repr, DecidableEq

namespace ObLCLLabel

def isValid (l : ObLCLLabel) : Bool := l.priority.isValid && (l.id.toNat ≠ invalidValue : Bool)

def lt (l r : ObLCLLabel) : Bool :=
  if l.priority.lt r.priority then true
  else if l.priority = r.priority then decide (l.id < r.id)
  else false

/-- The place of a label in the order of `operator<`. -/
def rank (l : ObLCLLabel) : ℤ ×ₗ ℕ ×ₗ ℕ :=
  toLex (l.priority.priorityRange.toInt, toLex (l.priority.priorityValue.toNat, l.id.toNat))

end ObLCLLabel

theorem PriorityRange.toInt_injective : Function.Injective PriorityRange.toInt := by
  intro p q h
  cases p <;> cases q <;> simp_all [PriorityRange.toInt]

theorem ObDetectorPriority.lt_iff (p q : ObDetectorPriority) :
    p.lt q = true ↔ p.priorityRange.toInt < q.priorityRange.toInt ∨
      p.priorityRange = q.priorityRange ∧ p.priorityValue.toNat < q.priorityValue.toNat := by
  unfold lt
  split_ifs with hrange heq
  · simp [hrange]
  · simp [heq, UInt64.lt_iff_toNat_lt]
  · simp [hrange, heq]

namespace ObLCLLabel

theorem lt_iff (l r : ObLCLLabel) : l.lt r = true ↔ l.rank < r.rank := by
  have hpriority : l.priority = r.priority ↔ l.priority.priorityRange = r.priority.priorityRange ∧
        l.priority.priorityValue.toNat = r.priority.priorityValue.toNat := by
    rw [UInt64.toNat_inj]
    constructor
    · intro h
      simp [h]
    · intro h
      cases hl : l.priority
      cases hr : r.priority
      simp_all
  simp only [rank, Prod.Lex.toLex_lt_toLex, PriorityRange.toInt_injective.eq_iff]
  unfold lt
  split_ifs with hlt heq
  · rw [ObDetectorPriority.lt_iff] at hlt
    rcases hlt with hrange | ⟨hrange, hvalue⟩
    · simp [hrange]
    · simp [hrange, hvalue]
  · obtain ⟨hrange, hvalue⟩ := hpriority.mp heq
    simp [hrange, hvalue, UInt64.lt_iff_toNat_lt]
  rw [ObDetectorPriority.lt_iff, not_or, not_and] at hlt
  rw [hpriority, not_and] at heq
  constructor
  · simp
  · rintro (hrange | ⟨hrange, hvalue | ⟨hvalue, -⟩⟩)
    · exact absurd hrange hlt.1
    · exact absurd hvalue (hlt.2 hrange)
    · exact absurd hvalue (heq hrange)

theorem rank_injective : Function.Injective rank := by
  rintro ⟨id, range, value⟩ ⟨id', range', value'⟩ h
  simp only [rank, toLex_inj, Prod.mk.injEq, UInt64.toNat_inj,
    PriorityRange.toInt_injective.eq_iff] at h
  simp [h]

end ObLCLLabel

/-! ### The node -/

variable {κ : Type u}

/-- `PHASE_TIME`, in microseconds: twice the jitter of the timer, the random delay and the
time to cross ten nodes. -/
def phaseTime : Nat := 2 * 50000 + 100000 + (40000 + 10000) * 10

/-- `PERIOD`: an LCLP phase and an LCLS phase. -/
def period : Nat := 2 * phaseTime

/-- What a visited detector adds to a cycle info. -/
structure ReportInfo (κ : Type u) where
  userKey : κ
  detectorId : UInt64
  priority : ObDetectorPriority
  deriving Repr, DecidableEq

structure ObLCLNode (κ : Type u) where
  selfKey : κ
  lclv : Int
  privateLabel : ObLCLLabel
  publicLabel : ObLCLLabel
  autoActivateWhenDetected : Bool
  blockList : List κ
  lclPeriod : Nat
  lastSendCycleInfoPeriod : Nat
  countDownAllowDetect : Nat

/-- What a detector is registered with, and what it waits for. -/
structure Detector (κ : Type u) where
  resourceId : UInt64
  priority : ObDetectorPriority
  countDownAllowDetect : Nat
  autoActivateWhenDetected : Bool
  blockList : List κ

def Detector.label (d : Detector κ) : ObLCLLabel := ⟨d.resourceId, d.priority⟩

namespace ObLCLNode

/-- The constructor. -/
def new (key : κ) (d : Detector κ) : ObLCLNode κ :=
  { selfKey := key
    lclv := 0
    privateLabel := d.label
    publicLabel := d.label
    autoActivateWhenDetected := d.autoActivateWhenDetected
    blockList := d.blockList
    lclPeriod := 0
    lastSendCycleInfoPeriod := 0
    countDownAllowDetect := d.countDownAllowDetect }

/-- `update_lcl_period_if_necessary_with_lock_`. -/
def updateLclPeriod (n : ObLCLNode κ) (now : Nat) : ObLCLNode κ :=
  if n.lclPeriod < now / period then
    { n with lclPeriod := now / period, publicLabel := n.privateLabel }
  else n

def processLclpState (n : ObLCLNode κ) (lclv : Int) : ObLCLNode κ :=
  if n.lclv < lclv + 1 then { n with lclv := lclv + 1 } else n

/-- The second component is `detected_flag`. -/
def processLclsState (n : ObLCLNode κ) (lclv : Int) (label : ObLCLLabel) : ObLCLNode κ × Bool :=
  if n.lclv ≤ lclv then
    let n := { n with lclv := lclv }
    if lclv = n.lclv ∧ label = n.privateLabel then
      if n.lastSendCycleInfoPeriod = n.lclPeriod then (n, false)
      else ({ n with lastSendCycleInfoPeriod := n.lclPeriod }, true)
    else if label.lt n.publicLabel then ({ n with publicLabel := label }, false)
    else (n, false)
  else (n, false)

/-- What `process_lcls_state_` can do. -/
theorem processLclsState_cases (n : ObLCLNode κ) (lclv : Int) (label : ObLCLLabel) :
    lclv < n.lclv ∧ n.processLclsState lclv label = (n, false) ∨ n.lclv ≤ lclv ∧
        (label = n.privateLabel ∧ n.lastSendCycleInfoPeriod = n.lclPeriod ∧
            n.processLclsState lclv label = ({ n with lclv := lclv }, false) ∨
          label = n.privateLabel ∧ n.lastSendCycleInfoPeriod ≠ n.lclPeriod ∧
            n.processLclsState lclv label =
              ({ n with lclv := lclv, lastSendCycleInfoPeriod := n.lclPeriod }, true) ∨
          label ≠ n.privateLabel ∧ label.lt n.publicLabel = true ∧ n.processLclsState lclv label =
              ({ n with lclv := lclv, publicLabel := label }, false) ∨
          label ≠ n.privateLabel ∧ label.lt n.publicLabel = false ∧
            n.processLclsState lclv label = ({ n with lclv := lclv }, false)) := by
  unfold processLclsState
  by_cases hle : n.lclv ≤ lclv
  · refine .inr ⟨hle, ?_⟩
    rw [if_pos hle]
    by_cases hlabel : label = n.privateLabel
    · by_cases hsent : n.lastSendCycleInfoPeriod = n.lclPeriod
      · exact .inl ⟨hlabel, hsent, by simp [hlabel, hsent]⟩
      · exact .inr (.inl ⟨hlabel, hsent, by simp [hlabel, hsent]⟩)
    · cases hlt : label.lt n.publicLabel with
      | true => exact .inr (.inr (.inl ⟨hlabel, rfl, by simp [hlabel, hlt]⟩))
      | false => exact .inr (.inr (.inr ⟨hlabel, rfl, by simp [hlabel, hlt]⟩))
  · exact .inl ⟨Int.lt_of_not_ge hle, if_neg hle⟩

def reportInfo (n : ObLCLNode κ) : ReportInfo κ :=
  ⟨n.selfKey, n.privateLabel.id, n.privateLabel.priority⟩

/-- The cycle info started here. -/
def isCompleteCycle (n : ObLCLNode κ) (collected : List (ReportInfo κ)) : Bool :=
  match collected with
  | [] => false
  | first :: _ => first.detectorId = n.privateLabel.id

variable [DecidableEq κ]

def checkDeadLoop (n : ObLCLNode κ) (collected : List (ReportInfo κ)) : Bool :=
  collected.any fun info => info.userKey = n.selfKey ∧ info.detectorId = n.privateLabel.id

/-- What `auto_activate_when_detected_` removes from the block list. -/
def activatePeer (n : ObLCLNode κ) (collected : List (ReportInfo κ)) : ObLCLNode κ :=
  if n.autoActivateWhenDetected then
    match collected with
    | [] => n
    | [first] => { n with blockList := n.blockList.erase first.userKey }
    | _ :: second :: _ => { n with blockList := n.blockList.erase second.userKey }
  else n

end ObLCLNode

/-- `detected_flag` is set once in an LCL period, and `last_send_cycle_info_period_` tells. -/
theorem ObLCLNode.lastSend_processLclsState (n : ObLCLNode κ) (lclv : Int) (label : ObLCLLabel) :
    (n.processLclsState lclv label).2 = true ∧ n.lastSendCycleInfoPeriod ≠ n.lclPeriod ∧
        (n.processLclsState lclv label).1.lastSendCycleInfoPeriod = n.lclPeriod ∨
      (n.processLclsState lclv label).2 = false ∧
        (n.processLclsState lclv label).1.lastSendCycleInfoPeriod = n.lastSendCycleInfoPeriod := by
  rcases n.processLclsState_cases lclv label with ⟨-, heq⟩ | ⟨-, hcases⟩
  · simp [heq]
  rcases hcases with ⟨-, -, heq⟩ | ⟨-, hsent, heq⟩ | ⟨-, -, heq⟩ | ⟨-, -, heq⟩
  · simp [heq]
  · simp [heq, hsent]
  · simp [heq]
  · simp [heq]

theorem ObLCLNode.lastSend_updateLclPeriod (n : ObLCLNode κ) (now : Nat) :
    (n.updateLclPeriod now).lastSendCycleInfoPeriod = n.lastSendCycleInfoPeriod := by
  unfold updateLclPeriod
  split_ifs <;> rfl

/-- The block list only loses entries, and nothing else changes. -/
theorem ObLCLNode.activatePeer_eq [DecidableEq κ] (n : ObLCLNode κ)
    (collected : List (ReportInfo κ)) :
    ∃ rest ⊆ n.blockList, n.activatePeer collected = { n with blockList := rest } := by
  unfold activatePeer
  split_ifs
  · match collected with
    | [] => exact ⟨n.blockList, List.Subset.refl _, rfl⟩
    | [_] => exact ⟨_, List.erase_subset, rfl⟩
    | _ :: _ :: _ => exact ⟨_, List.erase_subset, rfl⟩
  · exact ⟨n.blockList, List.Subset.refl _, rfl⟩

theorem ObLCLNode.lastSend_activatePeer [DecidableEq κ] (n : ObLCLNode κ)
    (collected : List (ReportInfo κ)) :
    (n.activatePeer collected).lastSendCycleInfoPeriod = n.lastSendCycleInfoPeriod := by
  obtain ⟨rest, -, heq⟩ := n.activatePeer_eq collected
  rw [heq]

/-- The loop of `if_self_has_lowest_priority_`, at index `i`. -/
def lowestPriority :
    List (ReportInfo κ) → Int → ObDetectorPriority × Int → ObDetectorPriority × Int
  | [], _, lowest => lowest
  | info :: rest, i, lowest =>
    lowestPriority rest (i + 1) (if info.priority.lt lowest.1 then (info.priority, i) else lowest)

def ifSelfHasLowestPriority (collected : List (ReportInfo κ)) : Bool :=
  (lowestPriority collected 0 (.highest, -1)).2 = 0

/-! ### The threads -/

inductive Message (κ : Type u) where
  | lclState (dest : κ) (lclv : Int) (label : ObLCLLabel) (sendTs : Nat)
  | cycleInfo (dest : κ) (collected : List (ReportInfo κ))

/-- What a thread has left to do. -/
inductive Task (κ : Type u) where
  /-- `process_lcl_state` has updated the period. -/
  | lclState (key : κ) (lclv : Int) (label : ObLCLLabel) (sendTs : Nat)
  /-- `process_lcl_state` has set `detected_flag`. -/
  | report (key : κ)
  /-- `runTimerTask` has updated the period. -/
  | push (key : κ)
  /-- `push_state_to_downstreams_with_lock_` has its snapshot. -/
  | broadcast (key : κ) (dests : List κ) (lclv : Int) (label : ObLCLLabel)

/-- `started` lists the cycle infos that were started, with the LCL period of the node;
`detected` lists the calls of `detect_callback_`. -/
structure LclState (κ : Type u) where
  node : κ → Option (ObLCLNode κ)
  queue : List (Message κ)
  tasks : List (Task κ)
  started : List (κ × Nat)
  detected : List (κ × List (ReportInfo κ))

inductive LclEvent (κ : Type u) where
  | runTimerTask (key : κ) (now : Nat)
  /-- The `i`-th task goes on; `ok` tells whether what it posts is queued. -/
  | resume (i now : Nat) (ok : Bool)
  /-- The `i`-th message is handled; the callbacks of the node may fail. -/
  | deliver (i now : Nat) (detectOk collectOk : Bool)
  | lose (i : Nat)
  | decCountDownAllowDetect (key : κ)

namespace LclState

def init (detectors : κ → Option (Detector κ)) : LclState κ :=
  { node := fun key => (detectors key).map (ObLCLNode.new key)
    queue := []
    tasks := []
    started := []
    detected := [] }

variable [DecidableEq κ]

def setNode (s : LclState κ) (key : κ) (n : ObLCLNode κ) : LclState κ :=
  { s with node := Function.update s.node key (some n) }

@[simp]
theorem setNode_node_self (s : LclState κ) (key : κ) (n : ObLCLNode κ) :
    (s.setNode key n).node key = some n :=
  Function.update_self ..

theorem setNode_node_of_ne (s : LclState κ) {key other : κ} (hne : other ≠ key) (n : ObLCLNode κ) :
    (s.setNode key n).node other = s.node other :=
  Function.update_of_ne hne ..

/-- The rest of `process_lcl_state` at the clock reading `now`. -/
def processLclState (s : LclState κ) (now : Nat) (key : κ) (lclv : Int) (label : ObLCLLabel)
    (sendTs : Nat) : LclState κ :=
  match s.node key with
  | none => s
  | some n =>
    if now / phaseTime ≠ sendTs / phaseTime then s
    else if now / phaseTime % 2 = 0 then s.setNode key (n.processLclpState lclv)
    else
      let processed := n.processLclsState lclv label
      let s := s.setNode key processed.1
      if processed.2 then
        { s with
          tasks := .report key :: s.tasks
          started := (key, n.lclPeriod) :: s.started }
      else s

/-- `push_state_to_downstreams_with_lock_`, up to its broadcast. -/
def pushStateToDownstreams (s : LclState κ) (key : κ) : LclState κ :=
  match s.node key with
  | none => s
  | some n =>
    if n.countDownAllowDetect ≠ 0 then s
    else { s with tasks := .broadcast key n.blockList n.lclv n.publicLabel :: s.tasks }

def resume (s : LclState κ) (now : Nat) (ok : Bool) : Task κ → LclState κ
  | .lclState key lclv label sendTs => s.processLclState now key lclv label sendTs
  | .report key => if ok then { s with queue := s.queue ++ [.cycleInfo key []] } else s
  | .push key => s.pushStateToDownstreams key
  | .broadcast _ [] _ _ => s
  | .broadcast key (dest :: rest) lclv label =>
    -- The queue refuses an invalid state, and a refusal ends the broadcast.
    if ok ∧ lclv ≠ invalidValue ∧ label.isValid ∧ now ≠ invalidValue then
      { s with
        queue := s.queue ++ [.lclState dest lclv label now]
        tasks := .broadcast key rest lclv label :: s.tasks }
    else s

def processCycleInfo (s : LclState κ) (n : ObLCLNode κ) (collected : List (ReportInfo κ))
    (detectOk collectOk : Bool) : LclState κ :=
  if n.isCompleteCycle collected then
    if ifSelfHasLowestPriority collected then
      let n' := if detectOk then n.activatePeer collected else n
      { s.setNode n.selfKey n' with detected := (n.selfKey, collected) :: s.detected }
    else s
  else if n.checkDeadLoop collected then s
  else if collectOk then
    { s with
      queue := s.queue ++
        n.blockList.map fun dest => .cycleInfo dest (collected ++ [n.reportInfo]) }
  else s

def deliver (s : LclState κ) (now : Nat) (detectOk collectOk : Bool) : Message κ → LclState κ
  | .lclState dest lclv label sendTs =>
    match s.node dest with
    | none => s
    | some n =>
      { s.setNode dest (n.updateLclPeriod now) with
        tasks := .lclState dest lclv label sendTs :: s.tasks }
  | .cycleInfo dest collected =>
    match s.node dest with
    | none => s
    | some n => s.processCycleInfo n collected detectOk collectOk

def step (s : LclState κ) : LclEvent κ → Option (LclState κ)
  | .runTimerTask key now =>
    (s.node key).map fun n =>
      { s.setNode key (n.updateLclPeriod now) with tasks := .push key :: s.tasks }
  | .resume i now ok =>
    (s.tasks[i]?).map fun task =>
      { s with tasks := s.tasks.eraseIdx i }.resume now ok task
  | .deliver i now detectOk collectOk =>
    (s.queue[i]?).map fun message =>
      { s with queue := s.queue.eraseIdx i }.deliver now detectOk collectOk message
  | .lose i => if i < s.queue.length then some { s with queue := s.queue.eraseIdx i } else none
  | .decCountDownAllowDetect key =>
    (s.node key).map fun n =>
      s.setNode key { n with countDownAllowDetect := n.countDownAllowDetect - 1 }

end LclState

end SeekDB.Lcl
