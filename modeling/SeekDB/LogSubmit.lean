/-
Concurrent submitters and freezers of the sliding window (submit_log,
try_freeze_prev_log_, generate_new_group_log_, append_to_group_log_ and
try_freeze_last_log_task_ of log_sliding_window.cpp).

A submitter first allocates its part of the log and then works through a fixed
list of steps, each of which is one critical section on a `LogTask`, one atomic
update of it or one copy into the group buffer.  The steps of different threads
interleave freely.  No log slides out meanwhile: a slot with a reference is not
reclaimed, and waiting for a slot or for buffer space changes no state.
-/
import SeekDB.LsnAllocatorClock
import SeekDB.LsnAllocatorLayout
import SeekDB.LogTask
import SeekDB.ProgramPool

namespace SeekDB

/-- The steps of a thread after its operation on the allocator. -/
inductive TaskAction
  /-- The critical section of `try_freeze_prev_log_`. -/
  | freezePrevLog (nextLogId : Int) (lsn : Nat)
  /-- The critical section of `generate_new_group_log_`. -/
  | initGroup (info : LogTaskHeaderInfo)
  | incUpdateMaxScn (logId : Int) (scn : Nat)
  | updateDataLen (logId : Int) (logEntrySize : Nat)
  /-- `fill` or `fill_padding_body` of the group buffer. -/
  | fill (bytes : Extent)
  /-- `ref` by the length of the bytes that have been filled. -/
  | ref (logId : Int) (bytes : Extent)
  | setSubmitLogExist (logId : Int)
  /-- The critical section of `try_freeze_last_log_task_`. -/
  | freezeLastLogTask (logId : Int) (expectedEndLsn : Nat)
  /-- Return with an error. -/
  | fail (ret : ObRet)
  deriving Repr, DecidableEq

/-- `FIRST_VALID_LOG_ID`. -/
def firstValidLogId : Int := 1

/-- `try_freeze_prev_log_`. -/
def tryFreezePrevLog (nextLogId : Int) (lsn : Nat) : List TaskAction :=
  if nextLogId = obInvalidLogId ∨ lsnIsValid lsn = false then
    [.fail .invalidArgument]
  else [.freezePrevLog nextLogId lsn]

/-- `generate_new_group_log_` for a group whose body has `logBodySize` bytes. -/
def generateNewGroupLog (lsn : Nat) (logId : Int) (scn logBodySize : Nat) (isPaddingLog : Bool) :
    List TaskAction :=
  if lsnIsValid lsn = false ∨ scnIsValid scn = false ∨ logBodySize = 0 ∨
      logId = obInvalidLogId then [.fail .invalidArgument]
  else
    let body := lsn + logGroupEntryHeaderSize
    .initGroup
      { LogTaskHeaderInfo.reset with
        beginLsn := lsn
        isPaddingLog := isPaddingLog
        logId := logId
        minScn := scn
        maxScn := scn
        dataLen := logBodySize } ::
    (if isPaddingLog then [.fill ⟨body, body + logBodySize⟩]
      else
        [.fill ⟨body + logEntryHeaderSize, body + logBodySize⟩,
          .fill ⟨body, body + logEntryHeaderSize⟩]) ++
    [.ref logId ⟨body, body + logBodySize⟩, .setSubmitLogExist logId]

/-- `append_to_group_log_`. -/
def appendToGroupLog (lsn : Nat) (logId : Int) (scn logEntrySize : Nat) :
    List TaskAction :=
  if lsnIsValid lsn = false ∨ scnIsValid scn = false ∨ logId = obInvalidLogId ∨
      logEntrySize = 0 then [.fail .invalidArgument]
  else
    [.incUpdateMaxScn logId scn, .updateDataLen logId logEntrySize,
      .fill ⟨lsn + logEntryHeaderSize, lsn + logEntrySize⟩,
      .fill ⟨lsn, lsn + logEntryHeaderSize⟩, .ref logId ⟨lsn, lsn + logEntrySize⟩]

/-- `submit_log` behind the allocation. -/
def submitLog (grant : AllocGrant) (validLogSize : Nat) : List TaskAction :=
  if grant.needGenPaddingEntry then
    tryFreezePrevLog grant.logId grant.lsn ++
    generateNewGroupLog grant.lsn grant.logId grant.scnVal
      (grant.paddingLen - logGroupEntryHeaderSize) true ++
    tryFreezePrevLog (grant.logId + 1) (grant.lsn + grant.paddingLen) ++
    generateNewGroupLog (grant.lsn + grant.paddingLen) (grant.logId + 1)
      (scnPlus grant.scnVal 1) validLogSize false
  else if grant.isNewGroupLog then
    tryFreezePrevLog grant.logId grant.lsn ++
    generateNewGroupLog grant.lsn grant.logId grant.scnVal validLogSize false
  else appendToGroupLog grant.lsn grant.logId grant.scnVal validLogSize

/-- What a thread does after an operation on the allocator. -/
def programAfter : AllocatorEvent → List TaskAction
  | .allocLsnScn args _ (.granted grant) =>
    if grant.ret = .success then submitLog grant args.size.toNat else []
  | .tryFreeze out | .tryFreezeByTime out =>
    if out.ret = .success ∧ 0 < out.lastLogId then
      [.freezeLastLogTask out.lastLogId out.lastLsn]
    else []
  | _ => []

namespace TaskAction

/-- The log task an action works on; `startLogId` is the first one that has not
slid out. -/
def target (startLogId : Int) : TaskAction → Option Int
  | freezePrevLog nextLogId _ =>
    if nextLogId = firstValidLogId ∨ nextLogId - 1 < startLogId then none
    else some (nextLogId - 1)
  | initGroup info => some info.logId
  | incUpdateMaxScn logId _ => some logId
  | updateDataLen logId _ => some logId
  | ref logId _ => some logId
  | setSubmitLogExist logId => some logId
  | freezeLastLogTask logId _ => if logId < startLogId then none else some logId
  | fill _ => none
  | fail _ => none

/-- What it does there; `none` is an error or a failed assertion. -/
def onTask (task : LogTask) : TaskAction → Option LogTask
  | freezePrevLog _ lsn =>
    if task.isValid then some (task.tryFreeze lsn).2 else some (task.setEndLsn lsn)
  | initGroup info =>
    match task.setInitialHeaderInfo info with
    | (.success, filled) => some filled.tryFreezeByMyself.2
    | _ => none
  | incUpdateMaxScn _ scn => some (task.incUpdateMaxScn scn)
  | updateDataLen _ logEntrySize => some (task.updateDataLen logEntrySize)
  | ref _ bytes => some (task.ref ((bytes.stop - bytes.start : Nat)) true)
  | setSubmitLogExist _ =>
    match task.setSubmitLogExist with
    | (true, tagged) => some tagged
    | (false, _) => none
  | freezeLastLogTask _ expectedEndLsn =>
    if task.isValid = false then some task
    else if (expectedEndLsn : Int) <
        task.header.beginLsn + logGroupEntryHeaderSize + task.header.dataLen then none
    else some (task.tryFreeze expectedEndLsn).2
  | fill _ => some task
  | fail _ => none

/-- The bytes it writes into the group buffer. -/
def fills : TaskAction → Nat → Bool
  | fill bytes => fun lsn => decide (bytes.start ≤ lsn ∧ lsn < bytes.stop)
  | _ => fun _ => false

end TaskAction

/-- The allocator, the log tasks and the threads.  `history` and `filled` are
for the statements only: the allocator's operations so far, and the bytes that
have been written into the group buffer. -/
structure SubmitSystem where
  allocator : LSNAllocator
  history : List AllocatorEvent
  startLogId : Int
  tasks : Int → LogTask
  filled : Nat → Bool
  pool : List (List TaskAction)

namespace SubmitSystem

def start (allocator : LSNAllocator) : SubmitSystem where
  allocator := allocator
  history := []
  startLogId := allocator.lastLogId + 1
  tasks := fun _ => .reset
  filled := fun _ => false
  pool := []

def setTask (system : SubmitSystem) (logId : Int) (task : LogTask) : SubmitSystem :=
  { system with
    tasks := fun other => if other = logId then task else system.tasks other }

/-- An operation on the allocator, and the thread that goes on from there. -/
def allocate (system : SubmitSystem) (event : AllocatorEvent) (next : LSNAllocator) :
    SubmitSystem :=
  { system with
    allocator := next
    history := system.history ++ [event]
    pool := programAfter event :: system.pool }

/-- The effect of an action, and whether it succeeded. -/
def perform (system : SubmitSystem) (action : TaskAction) : Bool × SubmitSystem :=
  match action.target system.startLogId with
  | some logId =>
    match action.onTask (system.tasks logId) with
    | some task => (true, system.setTask logId task)
    | none => (false, system)
  | none =>
    match action with
    | .fail _ => (false, system)
    | _ =>
      (true,
        { system with
          filled := fun lsn => system.filled lsn || action.fills lsn })

/-- The thread at `index` does an action and goes on with `rest`, or gives up
on an error. -/
def act (system : SubmitSystem) (index : Nat) (action : TaskAction) (rest : List TaskAction) :
    SubmitSystem :=
  match system.perform action with
  | (true, next) => { next with pool := system.pool.set index rest }
  | (false, next) => { next with pool := system.pool.set index [] }

end SubmitSystem

inductive SubmitEvent
  | allocator (event : AllocatorEvent)
  | act (action : TaskAction)
  | tryPreSubmit (logId : Int) (submitted : Bool)
  deriving Repr, DecidableEq

/-- A size that `submit_log` asks for, in a valid block and with SCNs left. -/
def SubmitAdmitted (allocator : LSNAllocator) (args : AllocArgs) : Prop :=
  logEntryHeaderSize < args.size ∧ BlockAdmitted allocator args ∧ ScnAdmitted allocator args

inductive SubmitStep : SubmitSystem → SubmitEvent → SubmitSystem → Prop
  | allocator {system : SubmitSystem} {event : AllocatorEvent} {next : LSNAllocator}
      (hstep : AllocatorStep SubmitAdmitted system.allocator event next) :
      SubmitStep system (.allocator event) (system.allocate event next)
  | act {system : SubmitSystem} {index : Nat} {action : TaskAction}
      {rest : List TaskAction}
      (htake : system.pool[index]? = some (action :: rest)) :
      SubmitStep system (.act action) (system.act index action rest)
  | tryPreSubmit (system : SubmitSystem) (logId : Int) :
      SubmitStep system (.tryPreSubmit logId (system.tasks logId).tryPreSubmit.1)
        (system.setTask logId (system.tasks logId).tryPreSubmit.2)

/-! What is still owed to a group by the threads that work on it. -/

/-- The part of an action that adds to the reference count of a task. -/
def refWeight (logId : Int) : TaskAction → Nat
  | .ref id bytes => if id = logId then bytes.stop - bytes.start else 0
  | _ => 0

/-- The part that adds to its data length. -/
def lenWeight (logId : Int) : TaskAction → Nat
  | .initGroup info => if info.logId = logId then info.dataLen.toNat else 0
  | .updateDataLen id logEntrySize => if id = logId then logEntrySize else 0
  | _ => 0

def initWeight (logId : Int) : TaskAction → Nat
  | .initGroup info => if info.logId = logId then 1 else 0
  | _ => 0

def tagWeight (logId : Int) : TaskAction → Nat
  | .setSubmitLogExist id => if id = logId then 1 else 0
  | _ => 0

/-- The four sums over all pending actions. -/
structure Owed where
  refs : Nat
  lens : Nat
  inits : Nat
  tags : Nat

open ProgramPool

def owed (pool : List (List TaskAction)) (logId : Int) : Owed where
  refs := pending (refWeight logId) pool
  lens := pending (lenWeight logId) pool
  inits := pending (initWeight logId) pool
  tags := pending (tagWeight logId) pool

/-- Length of a group without its header. -/
def GroupExtent.bodyLen (group : GroupExtent) : Nat :=
  group.stop - (group.start + logGroupEntryHeaderSize)

/-- No log will be appended to the group any more. -/
def Closed (allocator : LSNAllocator) (logId : Int) : Prop :=
  logId < allocator.lastLogId ∨ allocator.isNeedCut = true

/-- The task of a group in balance with what is still owed to it. -/
structure TaskInv (group : GroupExtent) (closed : Prop) (owed : Owed) (task : LogTask) : Prop where
  ref_balance : task.refCnt + owed.refs +
    (if task.isFreezed then (group.bodyLen : Int) else 0) = group.bodyLen
  data_balance : task.header.dataLen + owed.lens = group.bodyLen
  init_once : task.isValid.toNat + owed.inits = 1
  tag_once : task.submitLogExist.toNat + owed.tags = 1
  begin_eq : task.isValid = true → task.header.beginLsn = group.start
  end_eq : lsnIsValid task.header.endLsn = true → closed ∧ task.header.endLsn = group.stop
  frozen : task.isFreezed = true → task.isValid = true ∧ lsnIsValid task.header.endLsn = true

/-- What an action assumes about the group it works on. -/
def TaskAction.Fits (group : GroupExtent) (closed : Prop) : TaskAction → Prop
  | .freezePrevLog _ lsn => closed ∧ lsn = group.stop
  | .initGroup info => info.beginLsn = group.start ∧ 0 ≤ info.dataLen
  | .ref _ bytes => bytes.start < bytes.stop
  | .freezeLastLogTask _ expectedEndLsn => closed ∧ expectedEndLsn = group.stop
  | _ => True

section

variable {group : GroupExtent} {closed : Prop} {task : LogTask}

theorem TaskInv.tryFreeze {due : Owed} (hinv : TaskInv group closed due task)
    (hclosed : closed) (hlong : group.start + logGroupEntryHeaderSize ≤ group.stop) :
    TaskInv group closed due (task.tryFreeze group.stop).2 := by
  rcases task.tryFreeze_cases group.stop with
    hsame | ⟨hfreezed, hvalid, hlt, hlsn, heq⟩
  · rw [hsame]
    exact hinv
  have hbegin := hinv.begin_eq hvalid
  have hbalance := hinv.ref_balance
  rw [heq]
  refine { hinv with
    ref_balance := ?_, end_eq := fun _ => ⟨hclosed, rfl⟩, frozen := fun _ => ⟨hvalid, hlsn⟩ }
  simp only [hfreezed, Bool.false_eq_true, if_false, if_true, hbegin,
    GroupExtent.bodyLen] at hbalance ⊢
  omega

theorem TaskInv.initGroup {due : Owed} {info : LogTaskHeaderInfo} (hinv : TaskInv group closed
      { due with lens := info.dataLen.toNat + due.lens, inits := 1 + due.inits } task)
    (hbegin : info.beginLsn = group.start) (hlen : 0 ≤ info.dataLen)
    (hlong : group.start + logGroupEntryHeaderSize ≤ group.stop) :
    ∃ next, (TaskAction.initGroup info).onTask task = some next ∧
      TaskInv group closed due next := by
  have honce := hinv.init_once
  have hinvalid : task.isValid = false := by
    cases hvalid : task.isValid with
    | false => rfl
    | true =>
      simp only [hvalid, Bool.toNat_true] at honce
      omega
  have hnot : task.isFreezed = false := by
    cases hfreezed : task.isFreezed with
    | false => rfl
    | true => exact absurd (hinv.frozen hfreezed).1 (by simp [hinvalid])
  obtain ⟨filled, hret, hfilled⟩ : ∃ filled,
      task.setInitialHeaderInfo info = (.success, filled) ∧ TaskInv group closed due filled := by
    have hbalance := hinv.ref_balance
    have hdata := hinv.data_balance
    refine ⟨(task.setInitialHeaderInfo info).2,
      by simp [LogTask.setInitialHeaderInfo, hinvalid], ?_⟩
    simp only [LogTask.setInitialHeaderInfo, hinvalid, Bool.false_eq_true, if_false,
      LogTask.updateDataLen, LogTask.incUpdateMaxScn]
    refine ⟨hbalance, ?_, ?_, hinv.tag_once, fun _ => hbegin, hinv.end_eq, ?_⟩
    · simp only at hdata ⊢
      omega
    · simp only [hinvalid, Bool.toNat_true, Bool.toNat_false] at honce ⊢
      omega
    · simp [hnot]
  refine ⟨filled.tryFreezeByMyself.2, by simp only [TaskAction.onTask, hret], ?_⟩
  unfold LogTask.tryFreezeByMyself
  split
  · exact hfilled
  rename_i hset
  obtain ⟨hclosed, hstop⟩ := hfilled.end_eq (by simpa using hset)
  rw [hstop]
  exact hfilled.tryFreeze hclosed hlong

variable {pool : List (List TaskAction)} {index : Nat} {action : TaskAction}
  {rest : List TaskAction} {startLogId : Int}

theorem owed_take (htake : pool[index]? = some (action :: rest)) (logId : Int) : owed pool logId =
      { refs := refWeight logId action + (owed (pool.set index rest) logId).refs
        lens := lenWeight logId action + (owed (pool.set index rest) logId).lens
        inits := initWeight logId action + (owed (pool.set index rest) logId).inits
        tags := tagWeight logId action + (owed (pool.set index rest) logId).tags } := by
  simp only [owed, Owed.mk.injEq]
  exact ⟨pending_set htake, pending_set htake, pending_set htake, pending_set htake⟩

theorem owed_take_other (htake : pool[index]? = some (action :: rest)) {logId : Int}
    (hother : action.target startLogId ≠ some logId) :
    owed (pool.set index rest) logId = owed pool logId := by
  rw [owed_take htake]
  cases action <;>
    simp_all [TaskAction.target, refWeight, lenWeight, initWeight, tagWeight]

theorem TaskInv.onTask (hinv : TaskInv group closed (owed pool group.logId) task)
    (htake : pool[index]? = some (action :: rest))
    (htarget : action.target startLogId = some group.logId) (hfits : action.Fits group closed)
    (hlong : group.start + logGroupEntryHeaderSize ≤ group.stop) :
    ∃ next, action.onTask task = some next ∧
      TaskInv group closed (owed (pool.set index rest) group.logId) next := by
  rw [owed_take htake] at hinv
  generalize owed (pool.set index rest) group.logId = due at hinv ⊢
  cases action with
  | freezePrevLog =>
    obtain ⟨hclosed, rfl⟩ := hfits
    simp only [refWeight, lenWeight, initWeight, tagWeight, Nat.zero_add] at hinv
    cases hvalid : task.isValid with
    | true =>
      exact ⟨_, by simp [TaskAction.onTask, hvalid], hinv.tryFreeze hclosed hlong⟩
    | false =>
      refine ⟨task.setEndLsn group.stop, by simp [TaskAction.onTask, hvalid], ?_⟩
      exact { hinv with
        end_eq := fun _ => ⟨hclosed, rfl⟩
        frozen := fun hfreezed => absurd (hinv.frozen hfreezed).1 (by simp [hvalid]) }
  | initGroup info =>
    have hid : info.logId = group.logId := by simpa [TaskAction.target] using htarget
    simp only [refWeight, lenWeight, initWeight, tagWeight, Nat.zero_add, hid, if_true] at hinv
    exact hinv.initGroup hfits.1 hfits.2 hlong
  | incUpdateMaxScn =>
    simp only [refWeight, lenWeight, initWeight, tagWeight, Nat.zero_add] at hinv
    exact ⟨_, rfl, { hinv with }⟩
  | updateDataLen logId =>
    have hid : logId = group.logId := by simpa [TaskAction.target] using htarget
    simp only [refWeight, lenWeight, initWeight, tagWeight, Nat.zero_add, hid, if_true] at hinv
    refine ⟨_, rfl, { hinv with data_balance := ?_ }⟩
    have hdata := hinv.data_balance
    simp only [LogTask.updateDataLen] at hdata ⊢
    omega
  | fill | fail => simp [TaskAction.target] at htarget
  | ref logId =>
    have hid : logId = group.logId := by simpa [TaskAction.target] using htarget
    simp only [refWeight, lenWeight, initWeight, tagWeight, Nat.zero_add, hid, if_true] at hinv
    refine ⟨_, rfl, { hinv with ref_balance := ?_ }⟩
    have hbalance := hinv.ref_balance
    simp only [LogTask.ref, Nat.cast_add] at hbalance ⊢
    rw [Int.add_assoc task.refCnt]
    exact hbalance
  | setSubmitLogExist logId =>
    have hid : logId = group.logId := by simpa [TaskAction.target] using htarget
    simp only [refWeight, lenWeight, initWeight, tagWeight, Nat.zero_add, hid, if_true] at hinv
    have honce := hinv.tag_once
    have huntagged : task.submitLogExist = false := by
      cases htag : task.submitLogExist with
      | false => rfl
      | true =>
        simp only [htag, Bool.toNat_true] at honce
        omega
    refine ⟨{ task with submitLogExist := true },
      by simp [TaskAction.onTask, LogTask.setSubmitLogExist, huntagged],
      { hinv with tag_once := ?_ }⟩
    simp only [huntagged, Bool.toNat_true, Bool.toNat_false] at honce ⊢
    omega
  | freezeLastLogTask =>
    obtain ⟨hclosed, rfl⟩ := hfits
    simp only [refWeight, lenWeight, initWeight, tagWeight, Nat.zero_add] at hinv
    cases hvalid : task.isValid with
    | false => exact ⟨task, by simp [TaskAction.onTask, hvalid], hinv⟩
    | true =>
      refine ⟨_, ?_, hinv.tryFreeze hclosed hlong⟩
      have hdata := hinv.data_balance
      have hbegin := hinv.begin_eq hvalid
      unfold GroupExtent.bodyLen at hdata
      simp only [TaskAction.onTask, hvalid, Bool.true_eq_false, if_false]
      rw [if_neg (by omega)]

end

end SeekDB
