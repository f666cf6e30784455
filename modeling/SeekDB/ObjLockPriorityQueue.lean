/-
The priority queue of the lock requests on an object (`ObObjLockPriorityQueue` in
ob_obj_lock.cpp).  The queue keeps the id and the priority of the task it serves
and compares a request with those, not with its lists.
-/
import Mathlib

namespace SeekDB

open List

inductive ObTableLockPriority
  | invalid
  | high1
  | high2
  | normal
  | low
  deriving Repr, DecidableEq

structure ObTableLockOwnerID where
  type : Nat
  id : Int
  deriving Repr, DecidableEq

def ObTableLockOwnerID.isDefault (owner : ObTableLockOwnerID) : Bool :=
  decide (owner.type = 0 ∧ owner.id = 0)

/-- The owner after `reset`. -/
def invalidOwner : ObTableLockOwnerID := ⟨255, -1⟩

structure PriorityTaskID where
  transIdValue : Int
  ownerId : ObTableLockOwnerID
  deriving Repr, DecidableEq

/-- The test of `is_target` and `is_first_`: within the same transaction, or with
the same owner. -/
def PriorityTaskID.isTarget (id other : PriorityTaskID) : Bool :=
  decide (id.transIdValue = other.transIdValue) ||
    (!id.ownerId.isDefault && decide (id.ownerId = other.ownerId))

structure PriorityTask where
  id : PriorityTaskID
  createTs : Int
  priority : ObTableLockPriority
  deriving Repr, DecidableEq

inductive PriorityRet
  | success
  | entryExist
  | sizeOverflow
  | allocateMemoryFailed
  | errUnexpected
  | eagain
  deriving Repr, DecidableEq

/-- `current` are `current_id_` and `current_owner_id_`. -/
structure PriorityQueue where
  current : PriorityTaskID
  currentPriority : ObTableLockPriority
  high1List : List PriorityTask
  normalList : List PriorityTask
  totalSize : Int
  lastCreateTs : Int
  deriving Repr, DecidableEq

namespace PriorityQueue

def maxQueueSize : Int := 512

def init : PriorityQueue := ⟨⟨-1, invalidOwner⟩, .invalid, [], [], 0, -1⟩

/-- The list that the priority of a call selects. -/
def taskList (q : PriorityQueue) : ObTableLockPriority → Option (List PriorityTask)
  | .high2 => some q.high1List
  | .high1 => some q.high1List
  | .normal => some q.normalList
  | _ => none

/-- A change to the list that the priority selects. -/
def modifyList (q : PriorityQueue) (priority : ObTableLockPriority)
    (change : List PriorityTask → List PriorityTask) : PriorityQueue :=
  { q with
    high1List :=
      if priority = .high2 ∨ priority = .high1 then change q.high1List else q.high1List
    normalList := if priority = .normal then change q.normalList else q.normalList }

def isExist (q : PriorityQueue) (id : PriorityTaskID) (priority : ObTableLockPriority) : Bool :=
  (q.taskList priority).any fun tasks => tasks.any fun task => id.isTarget task.id

/-- `push`, with the creation time it sets; `now` is the current time. -/
def push (q : PriorityQueue) (id : PriorityTaskID) (priority : ObTableLockPriority) (now : Int)
    (allocated : Bool) : PriorityRet × Int × PriorityQueue :=
  if q.isExist id priority then (.entryExist, 0, q)
  else if maxQueueSize ≤ q.totalSize then (.sizeOverflow, 0, q)
  else
    let currentTs := if q.lastCreateTs < now then now else q.lastCreateTs + 1
    let stamped := { q with lastCreateTs := currentTs }
    if !allocated then (.allocateMemoryFailed, 0, stamped)
    else if q.taskList priority = none then (.errUnexpected, 0, stamped)
    else
      (.success, currentTs,
        { stamped.modifyList priority (· ++ [⟨id, currentTs, priority⟩]) with
          totalSize := q.totalSize + 1 })

/-- What `generate_first` takes from the lists. -/
def first (q : PriorityQueue) : PriorityTaskID × ObTableLockPriority :=
  match q.high1List, q.normalList with
  | task :: _, _ => (task.id, .high1)
  | [], task :: _ => (task.id, .normal)
  | [], [] => (⟨0, invalidOwner⟩, .invalid)

def generateFirst (q : PriorityQueue) : PriorityQueue :=
  { q with current := q.first.1, currentPriority := q.first.2 }

def isFirst (q : PriorityQueue) (priority : ObTableLockPriority) (id : PriorityTaskID) : Bool :=
  decide (priority = q.currentPriority) && id.isTarget q.current

/-- The first two steps of `remove`. -/
def removeTask (q : PriorityQueue) (id : PriorityTaskID) (priority : ObTableLockPriority) :
    PriorityQueue :=
  { q.modifyList priority (eraseP fun task => id.isTarget task.id) with
    totalSize := if q.isExist id priority then q.totalSize - 1 else q.totalSize }

def remove (q : PriorityQueue) (id : PriorityTaskID) (priority : ObTableLockPriority) :
    PriorityQueue :=
  let removed := q.removeTask id priority
  if removed.isFirst priority id then removed.generateFirst else removed

/-- `check_first`, which waits no time in `wait_for_first`. -/
def checkFirst (q : PriorityQueue) (priority : ObTableLockPriority) (id : PriorityTaskID) :
    PriorityRet :=
  if q.totalSize = 0 ∨ q.isFirst priority id then .success else .eagain

/-- `ObOBJLock::add_priority_task`. -/
def addPriorityTask (q : PriorityQueue) (id : PriorityTaskID) (priority : ObTableLockPriority)
    (now : Int) (allocated isDeleted : Bool) : PriorityRet × PriorityQueue :=
  if isDeleted then (.eagain, q)
  else
    match q.push id priority now allocated with
    | (.success, createTs, next) =>
      if createTs ≤ 0 then (.errUnexpected, next) else (.success, next.generateFirst)
    | (ret, _, next) => (ret, next)

/-- The task at the head of the queue. -/
def headTask (q : PriorityQueue) : Option PriorityTask := (q.high1List ++ q.normalList).head?

end PriorityQueue

/-- A call, at a time after the epoch. -/
inductive PriorityCall
  | add (id : PriorityTaskID) (priority : ObTableLockPriority) (now : Int) (hnow : 0 < now)
    (allocated isDeleted : Bool)
  | remove (id : PriorityTaskID) (priority : ObTableLockPriority)

def PriorityCall.priority : PriorityCall → ObTableLockPriority
  | .add _ priority _ _ _ _ => priority
  | .remove _ priority => priority

def PriorityQueue.apply (q : PriorityQueue) : PriorityCall → PriorityQueue
  | .add id priority now _ allocated isDeleted =>
    (q.addPriorityTask id priority now allocated isDeleted).2
  | .remove id priority => q.remove id priority

/-- The tasks are counted, and each is in the list of its own priority. -/
structure Queued (q : PriorityQueue) : Prop where
  size : q.totalSize = q.high1List.length + q.normalList.length
  high : ∀ task ∈ q.high1List, task.priority = .high1
  normal : ∀ task ∈ q.normalList, task.priority = .normal

structure Serves (q : PriorityQueue) : Prop extends Queued q where
  served : ∀ task, q.headTask = some task → q.current = task.id ∧ q.currentPriority = task.priority

open PriorityQueue

variable {q : PriorityQueue} {id : PriorityTaskID} {priority : ObTableLockPriority}

theorem Queued.generateFirst (h : Queued q) : Serves q.generateFirst := by
  refine { h with served := fun task hhead => ?_ }
  obtain ⟨current, currentPriority, high, normal, size, ts⟩ := q
  rcases high with _ | ⟨first, tasks⟩
  · rcases normal with _ | ⟨first, tasks⟩
    · cases hhead
    · cases hhead
      exact ⟨rfl, (h.normal _ mem_cons_self).symm⟩
  · cases hhead
    exact ⟨rfl, (h.high _ mem_cons_self).symm⟩

/-- The list of a priority other than HIGH2, changed. -/
theorem Queued.modify (h : Queued q) (hplain : priority ≠ .high2) {tasks : List PriorityTask}
    (hlist : q.taskList priority = some tasks) (change : List PriorityTask → List PriorityTask)
    (size ts : Int) (hchange : ∀ task ∈ change tasks, task ∈ tasks ∨ task.priority = priority)
    (hsize : size = q.totalSize + (change tasks).length - tasks.length) :
    Queued { q.modifyList priority change with totalSize := size, lastCreateTs := ts } := by
  have hcount := h.size
  cases priority with
  | invalid | low => cases hlist
  | high2 => exact absurd rfl hplain
  | high1 =>
    cases hlist
    exact ⟨by simp [modifyList]; omega,
      fun task hmem => (hchange task hmem).elim (h.high task) id, h.normal⟩
  | normal =>
    cases hlist
    exact ⟨by simp [modifyList]; omega, h.high,
      fun task hmem => (hchange task hmem).elim (h.normal task) id⟩

theorem Serves.added (h : Serves q) (hplain : priority ≠ .high2) {now : Int}
    (hnow : 0 < now) (allocated isDeleted : Bool) :
    Serves (q.addPriorityTask id priority now allocated isDeleted).2 := by
  have hstamp : ¬(if q.lastCreateTs < now then now else q.lastCreateTs + 1) ≤ 0 := by
    split <;> omega
  unfold addPriorityTask push
  generalize (if q.lastCreateTs < now then now else q.lastCreateTs + 1) = stamp at hstamp ⊢
  have hstamped : Serves { q with lastCreateTs := stamp } := { h with }
  split_ifs with hdeleted hexist hfull hallocated hlist
  iterate 3 exact h
  iterate 2 exact hstamped
  · obtain ⟨tasks, hlist⟩ := Option.ne_none_iff_exists'.mp hlist
    have hqueued := h.toQueued.modify hplain hlist (· ++ [⟨id, stamp, priority⟩])
      (q.totalSize + 1) stamp (by simp +contextual [or_imp]) (by simp; omega)
    simp only [hstamp, if_false]
    exact hqueued.generateFirst

theorem Queued.removed (h : Queued q) (hplain : priority ≠ .high2) :
    Queued (q.removeTask id priority) := by
  cases hlist : q.taskList priority with
  | none =>
    cases priority with
    | invalid | low => exact h
    | high1 | high2 | normal => cases hlist
  | some tasks =>
    refine h.modify hplain hlist _ _ _ (fun _ hmem => .inl (mem_of_mem_eraseP hmem)) ?_
    simp only [isExist, hlist, Option.any_some, length_eraseP]
    split
    · rename_i hfound
      obtain ⟨task, hmem, htarget⟩ := any_eq_true.mp hfound
      have := length_pos_of_mem hmem
      omega
    · omega

/-- A call for another task than the served one leaves the head where it is. -/
theorem Serves.removed (h : Serves q) (hplain : priority ≠ .high2)
    (hother : ¬q.isFirst priority id) : Serves (q.removeTask id priority) := by
  refine ⟨h.toQueued.removed hplain, fun task hhead => h.served task (Eq.trans ?_ hhead)⟩
  have hkept : ∀ tasks : List PriorityTask,
      (∀ task, tasks.head? = some task → q.headTask = some task ∧ task.priority = priority) →
      (tasks.eraseP fun task => id.isTarget task.id).head? = tasks.head? := by
    rintro (_ | ⟨task, tasks⟩) hserves
    · rfl
    · obtain ⟨hserved, rfl⟩ := hserves task rfl
      obtain ⟨hcurrent, hpriority⟩ := h.served task hserved
      rw [eraseP_cons_of_neg (by simpa [isFirst, hcurrent, hpriority] using hother)]
      rfl
  cases priority with
  | invalid | low => rfl
  | high2 => exact absurd rfl hplain
  | high1 =>
    have hhigh := hkept q.high1List fun task hhead =>
      ⟨by simp [headTask, hhead], h.high task (mem_of_head? hhead)⟩
    simp [headTask, removeTask, modifyList, hhigh]
  | normal =>
    cases hlist : q.high1List with
    | nil =>
      have hnormal := hkept q.normalList fun task hhead =>
        ⟨by simp [headTask, hlist, hhead], h.normal task (mem_of_head? hhead)⟩
      simp [headTask, removeTask, modifyList, hlist, hnormal]
    | cons first tasks =>
      simp [headTask, removeTask, modifyList, hlist]

theorem Serves.remove (h : Serves q) (hplain : priority ≠ .high2) :
    Serves (q.remove id priority) := by
  unfold PriorityQueue.remove
  simp only
  split
  · exact (h.toQueued.removed hplain).generateFirst
  · rename_i hother
    exact h.removed hplain hother

theorem Serves.apply (h : Serves q) {call : PriorityCall} (hplain : call.priority ≠ .high2) :
    Serves (q.apply call) := by
  cases call with
  | add id priority now hnow allocated isDeleted =>
    exact h.added hplain hnow allocated isDeleted
  | remove id priority => exact h.remove hplain

theorem Serves.run (h : Serves q) {calls : List PriorityCall}
    (hplain : ∀ call ∈ calls, call.priority ≠ .high2) :
    Serves (calls.foldl PriorityQueue.apply q) := by
  induction calls generalizing q with
  | nil => exact h
  | cons call calls ih =>
    rw [forall_mem_cons] at hplain
    exact ih (h.apply hplain.1) hplain.2

/-- As long as no call passes HIGH2, the queue serves the task at its head. -/
theorem priority_queue_serves_head (calls : List PriorityCall)
    (hplain : ∀ call ∈ calls, call.priority ≠ .high2) :
    let q := calls.foldl apply init
    q.totalSize = (q.high1List ++ q.normalList).length ∧
      ∀ task, q.headTask = some task → q.checkFirst task.priority task.id = .success := by
  have hinit : Serves init := ⟨⟨rfl, by simp [init], by simp [init]⟩, by simp [headTask, init]⟩
  have h := hinit.run hplain
  refine ⟨by simp [h.size], fun task hhead => ?_⟩
  obtain ⟨hcurrent, hpriority⟩ := h.served task hhead
  simp [checkFirst, isFirst, hcurrent, hpriority, PriorityTaskID.isTarget]

theorem high_task_served_before_normal :
    ([.add ⟨7, ⟨0, 0⟩⟩ .normal 100 (by decide) true false,
      .add ⟨9, ⟨0, 0⟩⟩ .high1 200 (by decide) true false].foldl apply init).checkFirst .high1
        ⟨9, ⟨0, 0⟩⟩ = .success :=
  (priority_queue_serves_head _ (by simp [PriorityCall.priority])).2
    ⟨⟨9, ⟨0, 0⟩⟩, 200, .high1⟩ rfl

/-- A HIGH2 task at the head is not served: `generate_first` takes it for HIGH1. -/
theorem high2_head_not_served :
    ∃ q task, q = [.add ⟨7, ⟨0, 0⟩⟩ .high2 100 (by decide) true false].foldl apply init ∧
      q.headTask = some task ∧ q.checkFirst task.priority task.id = .eagain :=
  ⟨_, ⟨⟨7, ⟨0, 0⟩⟩, 100, .high2⟩, rfl, rfl, rfl⟩

end SeekDB
