/-
The invariant of the dispatcher and its workers.  The batches that are not yet
released stand one after the other in the ring, from `next_commit_sn_` up to the
dispatch cursor, whether or not they have failed; so the batch that sees its own
number in `next_commit_sn_` is the first of them.
-/
import SeekDB.ChangeStreamDispatcher
import SeekDB.Execution

universe u

namespace SeekDB.ChangeStream

open List Option BatchPhase

variable {phase : SubTaskPhase} {ρ : Type u}

/-- The first ring position behind a batch. -/
def Batch.stop (batch : Batch ρ) : Nat := batch.batchSn + batch.txList.length

/-- The entries a releasing batch has popped so far. -/
def BatchPhase.popped : BatchPhase → Nat
  | .release popped => popped
  | _ => 0

/-- The batch has seen its number in `next_commit_sn_` and still relies on it. -/
def BatchPhase.IsFront : BatchPhase → Prop
  | .spinEnd _ => True
  | .commit => True
  | .updateScn => True
  | .release _ => True
  | _ => False

/-- The transaction of the batch is committed, its entries are not yet released. -/
def BatchPhase.IsReleasing : BatchPhase → Prop
  | .updateScn => True
  | .release _ => True
  | _ => False

/-- One thread owns the batch and has not decided its outcome. -/
def BatchPhase.IsWaiting : BatchPhase → Prop
  | .started => True
  | .spin _ => True
  | .spinPast _ => True
  | .spinEpoch _ => True
  | .spinEnd _ => True
  | .commit => True
  | .incEpoch => True
  | _ => False

def BatchPhase.IsSettled (phase : BatchPhase) : Prop := phase = .cleanup ∨ phase = .deleted

theorem BatchPhase.IsWaiting.spec {phase : BatchPhase} (h : phase.IsWaiting) :
    ¬ phase.IsSettled ∧ ¬ phase.IsReleasing ∧ phase ≠ .running ∧ phase ≠ .abandoned ∧
      phase ≠ .deleted ∧ phase.popped = 0 := by
  cases phase <;> simp_all [IsWaiting, IsSettled, IsReleasing, BatchPhase.popped]

namespace Pipeline

/-- The ring position behind the batches pushed so far. -/
def cursor (s : Pipeline ρ) : Nat :=
  match s.thread with
  | .aggregate ctx => ctx.batchSn
  | .skip ctx => ctx.batchSn
  | .prepare ctx => ctx.batchSn
  | .skipPop _ => s.dispatchSn + 1
  | _ => s.dispatchSn

/-- Where the batch number `j` starts, or would start. -/
def startAt (s : Pipeline ρ) (j : Nat) : Nat :=
  ((s.batches.map Batch.batchSn)[j]?).getD s.cursor

/-- The recovery has moved the cursor back but not yet taken over the epoch. -/
def Resetting (s : Pipeline ρ) : Prop := s.thread = .recoverEpoch

/-- An entry whose skip is under way. -/
def skipping (s : Pipeline ρ) : Nat :=
  match s.thread with
  | .skipPop _ => 1
  | _ => 0

def appliedBy (s : Pipeline ρ) (b : Nat) : List (TxInfo ρ) :=
  (s.applied.filter fun entry => entry.2 = some b).map Prod.fst

end Pipeline

/-- What holds of the batch number `i`, if those from `lo` on are not yet released. -/
structure BatchInv (s : Pipeline ρ) (lo i : Nat) (batch : Batch ρ) : Prop where
  taskCount_pos : 0 < batch.taskCount
  length_subTasks : batch.subTasks.length = batch.taskCount
  taskFinish_eq : batch.taskFinish = batch.subTasks.count .finished
  running_iff : batch.phase = .running ↔ batch.taskFinish < batch.taskCount
  txList_pos : 0 < batch.txList.length
  txList_ring : batch.txList <+: s.ring.drop batch.batchSn
  appliedBy_eq : s.appliedBy i = if batch.committed then batch.txList else []
  epoch_le : batch.epoch ≤ s.dispatcherEpoch
  settled : i < lo → batch.phase.IsSettled
  settled_committed : i < lo → batch.epoch = s.dispatcherEpoch → ¬ s.Resetting →
    batch.committed = true
  stop_eq : lo ≤ i → batch.stop = s.startAt (i + 1)
  epoch_eq : lo ≤ i → batch.epoch = s.dispatcherEpoch
  committed_imp : lo ≤ i → batch.committed = true → batch.phase.IsReleasing
  releasing_imp : batch.phase.IsReleasing → batch.committed = true
  popped_le : batch.phase.popped ≤ batch.txList.length
  front : batch.phase.IsFront → batch.batchSn = s.nextCommitSn

variable {s' : Pipeline ρ}

theorem BatchInv.transfer {s : Pipeline ρ} {lo i : Nat} {batch : Batch ρ}
    (h : BatchInv s lo i batch) (hring : s'.ring = s.ring)
    (happlied : s'.appliedBy i = s.appliedBy i)
    (hepoch : s'.dispatcherEpoch = s.dispatcherEpoch) (hreset : s.Resetting → s'.Resetting)
    (hstart : ∀ j, s'.startAt j = s.startAt j) (hnext : s'.nextCommitSn = s.nextCommitSn) :
    BatchInv s' lo i batch :=
  { h with
    txList_ring := hring ▸ h.txList_ring
    appliedBy_eq := happlied.trans h.appliedBy_eq
    epoch_le := hepoch ▸ h.epoch_le
    settled_committed := fun hlt heq hnot =>
      h.settled_committed hlt (heq.trans hepoch) fun hold => hnot (hreset hold)
    stop_eq := fun hlo => (h.stop_eq hlo).trans (hstart _).symm
    epoch_eq := fun hlo => (h.epoch_eq hlo).trans hepoch.symm
    front := fun hfront => (h.front hfront).trans hnext.symm }

theorem BatchInv.past_running (h : BatchInv s lo i batch) {next : BatchPhase}
    (hphase : batch.phase ≠ .running) (hnext : next ≠ .running) :
    next = .running ↔ batch.taskFinish < batch.taskCount :=
  ⟨fun hp => absurd hp hnext, fun hlt => absurd (h.running_iff.mpr hlt) hphase⟩

/-- A batch of at least `bound` subtasks of which those from `pushed` on are not pushed
yet. -/
def PushedUpTo (batches : List (Batch ρ)) (b pushed bound : Nat) : Prop :=
  ∃ batch, batches[b]? = some batch ∧ bound ≤ batch.taskCount ∧
    ∀ j, pushed ≤ j → j < batch.taskCount → batch.subTasks[j]? = some .unpushed

/-- What the dispatcher thread relies on. -/
def ThreadInv (s : Pipeline ρ) (lo : Nat) : Prop :=
  match s.thread with
  | .top => True
  | .check => True
  | .recoverWait => s.dispatcherEpoch < s.epoch
  | .recoverReload => s.dispatcherEpoch < s.epoch ∧ ∀ batch ∈ s.batches, batch.phase = .deleted
  | .recoverCursor => s.dispatcherEpoch < s.epoch ∧ ∀ batch ∈ s.batches, batch.phase = .deleted
  | .recoverEpoch =>
    s.dispatcherEpoch < s.epoch ∧ (∀ batch ∈ s.batches, batch.phase = .deleted) ∧
      lo = s.batches.length
  | .aggregate ctx =>
    0 < ctx.subTasks.length ∧ ctx.txList <+: s.ring.drop ctx.batchSn ∧
      s.dispatchSn = ctx.batchSn + ctx.txList.length
  | .skip ctx =>
    0 < ctx.subTasks.length ∧ ctx.txList <+: s.ring.drop ctx.batchSn ∧
      s.dispatchSn = ctx.batchSn + ctx.txList.length ∧ s.dispatchSn < s.ring.length
  | .prepare ctx =>
    0 < ctx.subTasks.length ∧ ctx.txList <+: s.ring.drop ctx.batchSn ∧
      s.dispatchSn = ctx.batchSn + ctx.txList.length ∧ ctx.txList ≠ []
  | .skipPop ctx =>
    0 < ctx.subTasks.length ∧ ctx.txList = [] ∧ s.dispatchSn < s.ring.length ∧ lo = s.batches.length
  | .push b pushed => PushedUpTo s.batches b pushed 0
  | .markUnpushed b pushed => PushedUpTo s.batches b pushed (pushed + 1)
  | .finishUnpushed b pushed => PushedUpTo s.batches b pushed (pushed + 1)
  | .incEpoch b => ∃ batch, s.batches[b]? = some batch ∧ batch.phase = .abandoned
  | .decActive b => ∃ batch, s.batches[b]? = some batch ∧ batch.phase = .abandoned

/-- The ring entries popped for the batch number `lo`, and those it has committed. -/
def Pipeline.popping (s : Pipeline ρ) (lo : Nat) : Nat :=
  (s.batches[lo]?.map fun batch => batch.phase.popped).getD 0

def Pipeline.committing (s : Pipeline ρ) (lo : Nat) : Nat :=
  (s.batches[lo]?.map fun batch => if batch.committed then batch.txList.length else 0).getD 0

structure PipeInv (s : Pipeline ρ) (lo : Nat) : Prop where
  batch : ∀ i batch, s.batches[i]? = some batch → BatchInv s lo i batch
  lo_le : lo ≤ s.batches.length
  startAt_lo : s.startAt lo = s.nextCommitSn
  thread : ThreadInv s lo
  dispatchSn_le : s.dispatchSn ≤ s.ring.length
  active : s.activeBatchCount = s.batches.countP fun batch => batch.phase ≠ .deleted
  beginSn_eq : s.beginSn + s.skipping = s.nextCommitSn + s.popping lo
  applied_eq : s.applied.map Prod.fst = s.ring.take (s.nextCommitSn + s.committing lo)
  applied_lt : ∀ entry ∈ s.applied, ∀ b, entry.2 = some b → b < s.batches.length
  epoch_le : s.dispatcherEpoch ≤ s.epoch
  fatal : s.fatal = false
  ordered : ∀ (i j : Nat) (left right : Batch ρ), i < j → s.batches[i]? = some left →
    s.batches[j]? = some right → left.epoch = right.epoch → right.committed = true →
    left.committed = true

namespace PipeInv

variable {s : Pipeline ρ} {lo i j b : Nat} {batch batch' : Batch ρ}

theorem init (persistedScn : Nat) : PipeInv (Pipeline.init (ρ := ρ) persistedScn) 0 where
  batch := by simp [Pipeline.init]
  lo_le := Nat.zero_le _
  startAt_lo := rfl
  thread := trivial
  dispatchSn_le := Nat.le_refl 0
  active := rfl
  beginSn_eq := rfl
  applied_eq := rfl
  applied_lt := by simp [Pipeline.init]
  epoch_le := Nat.le_refl 0
  fatal := rfl
  ordered := by simp [Pipeline.init]

/-! ### The batches in the ring -/

theorem lt_length (hbatch : s.batches[i]? = some batch) : i < s.batches.length :=
  (List.getElem?_eq_some_iff.mp hbatch).1

theorem startAt_eq (hbatch : s.batches[i]? = some batch) : s.startAt i = batch.batchSn := by
  simp [Pipeline.startAt, hbatch]

theorem startAt_succ (h : PipeInv s lo) (hlo : lo ≤ i) (hi : i < s.batches.length) :
    s.startAt i < s.startAt (i + 1) := by
  have hbatch := List.getElem?_eq_getElem hi
  have hinv := h.batch i _ hbatch
  rw [← hinv.stop_eq hlo, startAt_eq hbatch, Batch.stop]
  exact Nat.lt_add_of_pos_right hinv.txList_pos

theorem startAt_mono (h : PipeInv s lo) (hlo : lo ≤ i) (hij : i ≤ j) (hj : j ≤ s.batches.length) :
    s.startAt i + (j - i) ≤ s.startAt j := by
  induction j, hij using Nat.le_induction with
  | base => simp
  | succ j hij ih =>
    have hstep := h.startAt_succ (hlo.trans hij) (by omega : j < s.batches.length)
    have hprev := ih (by omega)
    omega

theorem startAt_length (s : Pipeline ρ) : s.startAt s.batches.length = s.cursor := by
  simp [Pipeline.startAt]

section

variable (h : PipeInv s lo)

include h

theorem cursor_le_dispatchSn : s.cursor ≤ s.dispatchSn + s.skipping := by
  have hthread := h.thread
  unfold ThreadInv at hthread
  unfold Pipeline.cursor Pipeline.skipping
  cases hs : s.thread <;> simp only [hs] at hthread ⊢ <;> omega

theorem eq_lo (hbatch : s.batches[i]? = some batch) (hlo : lo ≤ i)
    (hfront : batch.batchSn = s.nextCommitSn) : i = lo := by
  have hmono := h.startAt_mono le_rfl hlo (Nat.le_of_lt (lt_length hbatch))
  rw [startAt_eq hbatch, h.startAt_lo, hfront] at hmono
  omega

theorem lo_le_of_not_settled (hbatch : s.batches[i]? = some batch)
    (hphase : ¬ batch.phase.IsSettled) : lo ≤ i := by
  by_contra hlt
  exact hphase ((h.batch i batch hbatch).settled (Nat.lt_of_not_le hlt))

theorem nextCommitSn_le_batchSn (hbatch : s.batches[i]? = some batch)
    (hlo : lo ≤ i) : s.nextCommitSn ≤ batch.batchSn := by
  have hmono := h.startAt_mono le_rfl hlo (Nat.le_of_lt (lt_length hbatch))
  rw [startAt_eq hbatch, h.startAt_lo] at hmono
  omega

end

theorem stop_le_ring (h : BatchInv s lo i batch) : batch.stop ≤ s.ring.length := by
  have hlength := h.txList_ring.length_le
  have hpos := h.txList_pos
  rw [length_drop] at hlength
  rw [Batch.stop]
  omega

/-! ### Steps that change one batch -/

theorem modify_eq_set {α : Type u} {l : List α} {a : α} (f : α → α) (h : l[i]? = some a) :
    l.modify i f = l.set i (f a) := by
  rw [modify_eq_set_getElem?, h]
  rfl

theorem getElem?_set_batch (hb : s.batches[b]? = some batch) (j : Nat) :
    (s.batches.set b batch')[j]? = if b = j then some batch' else s.batches[j]? := by
  rw [List.getElem?_set, if_pos (lt_length hb)]

/-- A batch with other counters or in another phase, such that the dispatcher thread
sees no difference. -/
structure ThreadQuiet (batch batch' : Batch ρ) : Prop where
  taskCount : batch'.taskCount = batch.taskCount
  deleted : batch.phase = .deleted → batch'.phase = .deleted
  abandoned : batch.phase = .abandoned → batch'.phase = .abandoned
  unpushed : ∀ j : Nat, batch.subTasks[j]? = some .unpushed → batch'.subTasks[j]? = some .unpushed

/-- No other batch sees a difference. -/
structure Quiet (batch batch' : Batch ρ) : Prop where
  batchSn : batch'.batchSn = batch.batchSn
  txList : batch'.txList = batch.txList
  committed : batch'.committed = batch.committed
  popped : batch'.phase.popped = batch.phase.popped
  epoch : batch'.epoch = batch.epoch
  deleted_iff : batch'.phase = .deleted ↔ batch.phase = .deleted

theorem startAt_congr (hbatches : s'.batches.map Batch.batchSn = s.batches.map Batch.batchSn)
    (hcursor : s'.cursor = s.cursor) (j : Nat) : s'.startAt j = s.startAt j := by
  rw [Pipeline.startAt, Pipeline.startAt, hbatches, hcursor]

theorem startAt_lo_congr (h : s.startAt lo = s.nextCommitSn)
    (hbatches : s'.batches.map Batch.batchSn = s.batches.map Batch.batchSn)
    (hcursor : s'.cursor = s.cursor) (hnext : s'.nextCommitSn = s.nextCommitSn) :
    s'.startAt lo = s'.nextCommitSn :=
  (startAt_congr hbatches hcursor lo).trans (h.trans hnext.symm)

theorem stop_congr {stop : Nat} (h : stop = s.startAt j)
    (hbatches : s'.batches.map Batch.batchSn = s.batches.map Batch.batchSn)
    (hcursor : s'.cursor = s.cursor) : stop = s'.startAt j :=
  h.trans (startAt_congr hbatches hcursor j).symm

section

variable (hb : s.batches[b]? = some batch)

include hb

theorem batchSn_set (hsn : batch'.batchSn = batch.batchSn) :
    (s.batches.set b batch').map Batch.batchSn = s.batches.map Batch.batchSn := by
  obtain ⟨hlt, rfl⟩ := List.getElem?_eq_some_iff.mp hb
  have hlt' : b < (s.batches.map Batch.batchSn).length := by simpa using hlt
  have hself := set_getElem_self hlt'
  rwa [getElem_map, ← hsn, ← map_set] at hself

theorem all_deleted_set (hdeleted : batch.phase = .deleted → batch'.phase = .deleted)
    (hall : ∀ batch ∈ s.batches, batch.phase = .deleted) :
    ∀ batch ∈ s.batches.set b batch', batch.phase = .deleted := by
  intro other hother
  rcases mem_or_eq_of_mem_set hother with hmem | rfl
  · exact hall other hmem
  · exact hdeleted (hall batch (mem_of_getElem? hb))

section

variable (hq : ThreadQuiet batch batch')

include hq

theorem pushedUpTo_set {c pushed bound : Nat} (h : PushedUpTo s.batches c pushed bound) :
    PushedUpTo (s.batches.set b batch') c pushed bound := by
  obtain ⟨other, hother, hbound, hunpushed⟩ := h
  by_cases hc : b = c
  · subst hc
    obtain rfl : batch = other := some_inj.mp (hb.symm.trans hother)
    refine ⟨batch', by simp [getElem?_set_batch hb], hq.taskCount ▸ hbound, ?_⟩
    intro j hj hlt
    exact hq.unpushed j (hunpushed j hj (hq.taskCount ▸ hlt))
  · exact ⟨other, by simp [getElem?_set_batch hb, hc, hother], hbound, hunpushed⟩

theorem abandoned_set {c : Nat}
    (h : ∃ other, s.batches[c]? = some other ∧ other.phase = .abandoned) :
    ∃ other, (s.batches.set b batch')[c]? = some other ∧ other.phase = .abandoned := by
  obtain ⟨other, hother, hphase⟩ := h
  by_cases hc : b = c
  · subst hc
    obtain rfl : batch = other := some_inj.mp (hb.symm.trans hother)
    exact ⟨batch', by simp [getElem?_set_batch hb], hq.abandoned hphase⟩
  · exact ⟨other, by simp [getElem?_set_batch hb, hc, hother], hphase⟩

theorem threadInv_set
    (h : ThreadInv s lo) : ThreadInv { s with batches := s.batches.set b batch' } lo := by
  unfold ThreadInv at h ⊢
  cases hs : s.thread with
  | top | check => trivial
  | recoverWait | aggregate | skip | prepare => simpa only [hs] using h
  | recoverReload | recoverCursor =>
    simp only [hs] at h ⊢
    exact ⟨h.1, all_deleted_set hb hq.deleted h.2⟩
  | recoverEpoch =>
    simp only [hs, length_set] at h ⊢
    exact ⟨h.1, all_deleted_set hb hq.deleted h.2.1, h.2.2⟩
  | skipPop => simpa only [hs, length_set] using h
  | push | markUnpushed | finishUnpushed => exact pushedUpTo_set hb hq (by simpa only [hs] using h)
  | incEpoch | decActive => exact abandoned_set hb hq (by simpa only [hs] using h)

end

theorem countP_set_eq (hdeleted : batch'.phase = .deleted ↔ batch.phase = .deleted) :
    (s.batches.set b batch').countP (fun batch => batch.phase ≠ .deleted) =
      s.batches.countP fun batch => batch.phase ≠ .deleted := by
  obtain ⟨hlt, hget⟩ := List.getElem?_eq_some_iff.mp hb
  rw [countP_set hlt, hget]
  by_cases hphase : batch.phase = .deleted
  · simp [hphase, hdeleted.mpr hphase]
  have hpos : 0 < s.batches.countP fun batch => batch.phase ≠ .deleted :=
    countP_pos_iff.mpr ⟨batch, mem_of_getElem? hb, by simpa using hphase⟩
  have hphase' : ¬ batch'.phase = .deleted := fun h => hphase (hdeleted.mp h)
  simp only [ne_eq, hphase, hphase', not_false_eq_true, decide_true, if_true]
  exact Nat.sub_add_cancel hpos

end

section

variable (h : PipeInv s lo)

include h

theorem ordered_set (hb : s.batches[b]? = some batch)
    (hepoch : batch'.epoch = batch.epoch) (hcommitted : batch'.committed = batch.committed)
    {left right : Batch ρ} (hij : i < j) (hleft : (s.batches.set b batch')[i]? = some left)
    (hright : (s.batches.set b batch')[j]? = some right) (heq : left.epoch = right.epoch)
    (hdone : right.committed = true) : left.committed = true := by
  have hold : ∀ (k : Nat) (other : Batch ρ), (s.batches.set b batch')[k]? = some other →
      ∃ old, s.batches[k]? = some old ∧ other.epoch = old.epoch ∧
        other.committed = old.committed := by
    intro k other hother
    rw [getElem?_set_batch hb] at hother
    split_ifs at hother with hk
    · subst hk
      cases hother
      exact ⟨batch, hb, hepoch, hcommitted⟩
    · exact ⟨other, hother, rfl, rfl⟩
  obtain ⟨left', hleft', hleftEpoch, hleftDone⟩ := hold i left hleft
  obtain ⟨right', hright', hrightEpoch, hrightDone⟩ := hold j right hright
  rw [hleftDone]
  exact h.ordered i j left' right' hij hleft' hright'
    (hleftEpoch.symm.trans (heq.trans hrightEpoch)) (hrightDone.symm.trans hdone)

/-- A batch gives way to one with the same transactions; the counts of transactions
taken off the ring and of live batches follow. -/
theorem replace (batch' : Batch ρ) (hb : s.batches[b]? = some batch)
    (hsn : batch'.batchSn = batch.batchSn) (htx : batch'.txList = batch.txList)
    (hepoch : batch'.epoch = batch.epoch) (hcommitted : batch'.committed = batch.committed)
    (hnew : BatchInv s lo b batch') {beginSn active : Nat}
    (hthread : ThreadInv { s with batches := s.batches.set b batch' } lo)
    (hactive : active = (s.batches.set b batch').countP fun batch => batch.phase ≠ .deleted)
    (hbegin : beginSn + s.skipping = s.nextCommitSn +
      Pipeline.popping { s with batches := s.batches.set b batch' } lo) :
    PipeInv
      { s with
        beginSn := beginSn
        activeBatchCount := active
        batches := s.batches.set b batch' } lo where
  batch := by
    intro i other hother
    rw [getElem?_set_batch hb] at hother
    split_ifs at hother with hi
    · subst hi
      cases hother
      exact hnew.transfer rfl rfl rfl id (startAt_congr (batchSn_set hb hsn) rfl) rfl
    · exact (h.batch i other hother).transfer rfl rfl rfl id
        (startAt_congr (batchSn_set hb hsn) rfl) rfl
  lo_le := by
    rw [length_set]
    exact h.lo_le
  startAt_lo := startAt_lo_congr h.startAt_lo (batchSn_set hb hsn) rfl rfl
  thread := hthread
  dispatchSn_le := h.dispatchSn_le
  active := hactive
  beginSn_eq := hbegin
  applied_eq := by
    refine h.applied_eq.trans ?_
    congr 2
    rw [Pipeline.committing, Pipeline.committing, getElem?_set_batch hb]
    split_ifs with hlo
    · subst hlo
      rw [hb, map_some, map_some, hcommitted, htx]
    · rfl
  applied_lt := by
    rw [length_set]
    exact h.applied_lt
  epoch_le := h.epoch_le
  fatal := h.fatal
  ordered := fun _ _ _ _ hij hleft hright => h.ordered_set hb hepoch hcommitted hij hleft hright

theorem popping_set (hb : s.batches[b]? = some batch)
    (hpopped : batch'.phase.popped = batch.phase.popped) : s.beginSn + s.skipping =
      s.nextCommitSn + Pipeline.popping { s with batches := s.batches.set b batch' } lo := by
  refine h.beginSn_eq.trans ?_
  congr 1
  rw [Pipeline.popping, Pipeline.popping, getElem?_set_batch hb]
  split_ifs with hlo
  · subst hlo
    rw [hb, map_some, map_some, hpopped]
  · rfl

theorem quiet (hb : s.batches[b]? = some batch) (hq : Quiet batch batch')
    (hnew : BatchInv s lo b batch')
    (hthread : ThreadInv { s with batches := s.batches.set b batch' } lo) :
    PipeInv { s with batches := s.batches.set b batch' } lo :=
  h.replace batch' hb hq.batchSn hq.txList hq.epoch hq.committed hnew hthread
    (h.active.trans (countP_set_eq hb hq.deleted_iff).symm) (h.popping_set hb hq.popped)

end

/-! ### Subtasks -/

theorem moveSubTask_eq_some {move : Batch ρ → Batch ρ}
    (hstep : s.moveSubTask b i phase move = some s') :
    ∃ batch, s.batches[b]? = some batch ∧ batch.subTasks[i]? = some phase ∧
      s' = { s with batches := s.batches.set b (move batch) } := by
  unfold Pipeline.moveSubTask at hstep
  rcases hb : s.batches[b]? with _ | batch
  · simp [hb] at hstep
  simp only [hb] at hstep
  obtain ⟨hphase, hs'⟩ := ite_none_right_eq_some.mp hstep
  refine ⟨batch, rfl, hphase, ?_⟩
  rw [← some_inj.mp hs', Pipeline.modifyBatch, modify_eq_set move hb]

theorem count_set_of_ne {l : List SubTaskPhase} {next : SubTaskPhase}
    (hphase : l[i]? = some phase) (hne : phase ≠ .finished) (hnext : next ≠ .finished) :
    (l.set i next).count .finished = l.count .finished := by
  obtain ⟨hlt, hget⟩ := List.getElem?_eq_some_iff.mp hphase
  simp [count_set hlt, hget, hne, hnext]

theorem unpushed_set {l : List SubTaskPhase} (next : SubTaskPhase)
    (hphase : l[i]? = some phase) (hne : phase ≠ .unpushed) (hj : l[j]? = some .unpushed) :
    (l.set i next)[j]? = some .unpushed := by
  have hij : i ≠ j := by
    rintro rfl
    exact hne (some_inj.mp (hphase.symm.trans hj))
  rw [List.getElem?_set_ne hij, hj]

theorem subTask (h : PipeInv s lo) (hb : s.batches[b]? = some batch) {next : SubTaskPhase}
    (hphase : batch.subTasks[i]? = some phase) (hne : phase ≠ .finished)
    (hpushed : phase ≠ .unpushed) (hnext : next ≠ .finished) (taskFail : Nat) :
    PipeInv
      { s with
        batches := s.batches.set b
          { batch with taskFail := taskFail, subTasks := batch.subTasks.set i next } } lo := by
  have hinv := h.batch b batch hb
  refine h.quiet hb ⟨rfl, rfl, rfl, rfl, rfl, Iff.rfl⟩ ?_ ?_
  rotate_left
  · refine threadInv_set hb ⟨rfl, id, id, ?_⟩ h.thread
    intro j hj
    exact unpushed_set next hphase hpushed hj
  · exact
      { hinv with
        length_subTasks := by
          rw [length_set]
          exact hinv.length_subTasks
        taskFinish_eq := by
          rw [count_set_of_ne hphase hne hnext]
          exact hinv.taskFinish_eq }

theorem running_of_unfinished (h : BatchInv s lo b batch)
    (hphase : batch.subTasks[i]? = some phase) (hne : phase ≠ .finished) :
    batch.taskFinish < batch.taskCount := by
  rw [h.taskFinish_eq, ← h.length_subTasks]
  refine lt_of_le_of_ne count_le_length fun hall => hne ?_
  exact (count_eq_length.mp hall phase (mem_of_getElem? hphase)).symm

theorem finishSubTask (h : PipeInv s lo) (hb : s.batches[b]? = some batch)
    (hphase : batch.subTasks[i]? = some .processed) :
    PipeInv
      { s with
        batches := s.batches.set b
          { batch.addFinished 1 .started with
            subTasks := batch.subTasks.set i .finished } } lo := by
  have hinv := h.batch b batch hb
  have hlt := running_of_unfinished hinv hphase (by decide)
  have hrunning := hinv.running_iff.mpr hlt
  have hlo : lo ≤ b := h.lo_le_of_not_settled hb (by simp [hrunning, IsSettled])
  have huncommitted : ¬ batch.committed = true := fun hcommitted => by
    simpa [hrunning, IsReleasing] using hinv.committed_imp hlo hcommitted
  have hcount : (batch.subTasks.set i .finished).count .finished = batch.taskFinish + 1 := by
    obtain ⟨hi, hget⟩ := List.getElem?_eq_some_iff.mp hphase
    simp [count_set hi, hget, hinv.taskFinish_eq]
  have hnewPhase : (batch.addFinished 1 .started).phase = .started ∧
        batch.taskFinish + 1 = batch.taskCount ∨
      (batch.addFinished 1 .started).phase = .running ∧ batch.taskFinish + 1 < batch.taskCount := by
    simp only [Batch.addFinished, hrunning]
    split_ifs with hlast
    · exact .inl ⟨rfl, hlast⟩
    · exact .inr ⟨rfl, by omega⟩
  refine h.quiet hb ?_ ?_ ?_
  rotate_right
  · refine threadInv_set hb ⟨rfl, by simp [hrunning], by simp [hrunning], ?_⟩ h.thread
    intro j hj
    exact unpushed_set .finished hphase (by decide) hj
  · refine ⟨rfl, rfl, rfl, ?_, rfl, ?_⟩
    · rcases hnewPhase with ⟨hp, -⟩ | ⟨hp, -⟩ <;> simp [hp, hrunning, BatchPhase.popped]
    · rcases hnewPhase with ⟨hp, -⟩ | ⟨hp, -⟩ <;> simp [hp, hrunning]
  · exact
      { hinv with
        length_subTasks := by
          rw [length_set]
          exact hinv.length_subTasks
        taskFinish_eq := hcount.symm
        running_iff := by
          change (batch.addFinished 1 .started).phase = .running ↔
            batch.taskFinish + 1 < batch.taskCount
          rcases hnewPhase with ⟨hp, hlast⟩ | ⟨hp, hmore⟩
          · simp [hp, hlast]
          · simp [hp, hmore]
        settled := fun hlt => absurd hlt (Nat.not_lt.mpr hlo)
        committed_imp := fun _ hcommitted => absurd hcommitted huncommitted
        releasing_imp := by
          rcases hnewPhase with ⟨hp, -⟩ | ⟨hp, -⟩ <;> simp [hp, IsReleasing]
        popped_le := by
          rcases hnewPhase with ⟨hp, -⟩ | ⟨hp, -⟩ <;> simp [hp, BatchPhase.popped]
        front := by
          rcases hnewPhase with ⟨hp, -⟩ | ⟨hp, -⟩ <;> simp [hp, IsFront] }

/-! ### The thread that finishes a batch -/

/-- The steps of a finishing thread. -/
inductive FinishStep (batch : Batch ρ) (nextCommitSn persistedScn : Nat) (ringEmpty : Bool) :
    BatchPhase → Effect → Prop where
  | quiet {phase : BatchPhase} {effect : Effect} (hwaiting : batch.phase.IsWaiting)
      (hnext : phase.IsWaiting ∨ phase = .cleanup)
      (hfront : phase.IsFront → batch.phase.IsFront ∨ nextCommitSn = batch.batchSn)
      (heffect : effect = .none ∨ effect = .incEpoch) :
      FinishStep batch nextCommitSn persistedScn ringEmpty phase effect
  | past {anyFail : Bool} (hphase : batch.phase = .spinPast anyFail)
      (hpast : batch.batchSn < nextCommitSn) :
      FinishStep batch nextCommitSn persistedScn ringEmpty (.spinPast anyFail) .fatal
  | commit (hphase : batch.phase = .commit) (hscn : persistedScn ≤ batch.refreshScn) :
      FinishStep batch nextCommitSn persistedScn ringEmpty .updateScn .commit
  | updateScn (hphase : batch.phase = .updateScn) :
      FinishStep batch nextCommitSn persistedScn ringEmpty (.release 0) .updateScn
  | empty {popped : Nat} (hphase : batch.phase = .release popped)
      (hmore : popped < batch.txList.length) (hempty : ringEmpty = true) :
      FinishStep batch nextCommitSn persistedScn ringEmpty (.release popped) .fatal
  | pop {popped : Nat} (hphase : batch.phase = .release popped)
      (hmore : popped < batch.txList.length) (hempty : ringEmpty = false) :
      FinishStep batch nextCommitSn persistedScn ringEmpty (.release (popped + 1)) .pop
  | advance {popped : Nat} (hphase : batch.phase = .release popped)
      (hall : batch.txList.length ≤ popped) :
      FinishStep batch nextCommitSn persistedScn ringEmpty .cleanup .advance
  | decActive (hphase : batch.phase = .cleanup) :
      FinishStep batch nextCommitSn persistedScn ringEmpty .deleted .decActive

theorem finishStep {nextCommitSn epoch persistedScn : Nat} {ringEmpty ok : Bool}
    {phase : BatchPhase} {effect : Effect}
    (hfinish : batch.finish nextCommitSn epoch persistedScn ringEmpty ok = some (phase, effect)) :
    FinishStep batch nextCommitSn persistedScn ringEmpty phase effect := by
  unfold Batch.finish at hfinish
  cases hphase : batch.phase with
  | running | abandoned | deleted => simp [hphase] at hfinish
  | started | spinEpoch =>
    simp only [hphase] at hfinish
    split_ifs at hfinish <;> cases hfinish
    · exact .quiet (hphase ▸ trivial) (.inr rfl) False.elim (.inl rfl)
    · exact .quiet (hphase ▸ trivial) (.inl trivial) False.elim (.inl rfl)
  | spin =>
    simp only [hphase] at hfinish
    split_ifs at hfinish with hnext <;> cases hfinish
    · exact .quiet (hphase ▸ trivial) (.inl trivial) False.elim (.inl rfl)
    · exact .quiet (hphase ▸ trivial) (.inl trivial) (fun _ => .inr (not_not.mp hnext))
        (.inl rfl)
  | spinPast =>
    simp only [hphase] at hfinish
    split_ifs at hfinish with hpast <;> cases hfinish
    · exact .past hphase hpast
    · exact .quiet (hphase ▸ trivial) (.inl trivial) False.elim (.inl rfl)
  | spinEnd =>
    simp only [hphase] at hfinish
    have hfront : batch.phase.IsFront := hphase ▸ trivial
    split_ifs at hfinish <;> cases hfinish
    · exact .quiet (hphase ▸ trivial) (.inr rfl) False.elim (.inl rfl)
    · exact .quiet (hphase ▸ trivial) (.inl trivial) False.elim (.inl rfl)
    · exact .quiet (hphase ▸ trivial) (.inl trivial) (fun _ => .inl hfront) (.inl rfl)
  | commit =>
    simp only [hphase] at hfinish
    split_ifs at hfinish with hok <;> cases hfinish
    · exact .commit hphase hok.2
    · exact .quiet (hphase ▸ trivial) (.inl trivial) False.elim (.inl rfl)
  | updateScn =>
    simp only [hphase] at hfinish
    cases hfinish
    exact .updateScn hphase
  | release =>
    simp only [hphase] at hfinish
    split_ifs at hfinish with hmore hempty <;> cases hfinish
    · exact .empty hphase hmore hempty
    · exact .pop hphase hmore (by simpa using hempty)
    · exact .advance hphase (Nat.le_of_not_lt hmore)
  | incEpoch =>
    simp only [hphase] at hfinish
    cases hfinish
    exact .quiet (hphase ▸ trivial) (.inr rfl) False.elim (.inr rfl)
  | cleanup =>
    simp only [hphase] at hfinish
    cases hfinish
    exact .decActive hphase

theorem waiting (h : PipeInv s lo) (hb : s.batches[b]? = some batch)
    (hwaiting : batch.phase.IsWaiting) {phase : BatchPhase}
    (hnext : phase.IsWaiting ∨ phase = .cleanup)
    (hfront : phase.IsFront → batch.batchSn = s.nextCommitSn) :
    PipeInv { s with batches := s.batches.set b { batch with phase := phase } } lo := by
  have hinv := h.batch b batch hb
  obtain ⟨hunsettled, hunreleased, hstarted, howned, hlive, hpopped⟩ := hwaiting.spec
  have hlo := h.lo_le_of_not_settled hb hunsettled
  have huncommitted : ¬ batch.committed = true := fun hcommitted =>
    hunreleased (hinv.committed_imp hlo hcommitted)
  have hnextSpec : ¬ phase.IsReleasing ∧ phase ≠ .running ∧ phase ≠ .deleted ∧
      phase.popped = 0 := by
    rcases hnext with hnext | rfl
    · obtain ⟨-, hr, hs, -, hd, hp⟩ := IsWaiting.spec hnext
      exact ⟨hr, hs, hd, hp⟩
    · simp [IsReleasing, BatchPhase.popped]
  obtain ⟨hnextReleased, hnextStarted, hnextLive, hnextPopped⟩ := hnextSpec
  refine h.quiet hb ?_ ?_ (threadInv_set hb
    ⟨rfl, fun hd => absurd hd hlive, fun ha => absurd ha howned, fun _ => id⟩ h.thread)
  · exact ⟨rfl, rfl, rfl, hnextPopped.trans hpopped.symm, rfl,
      ⟨fun hd => absurd hd hnextLive, fun hd => absurd hd hlive⟩⟩
  exact
    { hinv with
      running_iff := hinv.past_running hstarted hnextStarted
      settled := fun hlt => absurd hlt (Nat.not_lt.mpr hlo)
      committed_imp := fun _ hcommitted => absurd hcommitted huncommitted
      releasing_imp := fun hr => absurd hr hnextReleased
      popped_le := hnextPopped ▸ Nat.zero_le _
      front := hfront }

end PipeInv

end SeekDB.ChangeStream
