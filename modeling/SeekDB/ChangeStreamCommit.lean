/-
Batches of the change stream commit once and in ring order: the steps of the
dispatcher keep the invariant of the batches, and with those of the workers every
run does.
-/
import SeekDB.ChangeStreamFinish

universe u

namespace SeekDB.ChangeStream

open List Option Pipeline BatchPhase

variable {pushed : Nat} {ρ : Type u} {ctx : Building ρ}

namespace PipeInv

variable {s : Pipeline ρ} {lo i j b : Nat} {batch batch' : Batch ρ}

theorem setThread (h : PipeInv s lo) (hreset : ¬ s.Resetting) (hskipping : s.skipping = 0)
    {thread : DispatcherPhase ρ} {dispatchSn refreshScn : Nat}
    (hcursor : cursor { s with dispatchSn := dispatchSn, thread := thread } = s.cursor)
    (hskipping' : skipping { s with thread := thread } = 0)
    (hthread : ThreadInv { s with dispatchSn := dispatchSn, thread := thread } lo)
    (hle : dispatchSn ≤ s.ring.length) :
    PipeInv
      { s with dispatchSn := dispatchSn, refreshScn := refreshScn, thread := thread } lo :=
  { h with
    batch := fun i batch hb =>
      (h.batch i batch hb).transfer rfl rfl rfl (fun hold => absurd hold hreset)
        (startAt_congr rfl hcursor) rfl
    startAt_lo := startAt_lo_congr h.startAt_lo rfl hcursor rfl
    thread := hthread
    dispatchSn_le := hle
    beginSn_eq := by
      have hbegin := h.beginSn_eq
      rw [hskipping] at hbegin
      exact (congrArg _ hskipping').trans hbegin }

/-! ### Recovery -/

theorem all_deleted (h : PipeInv s lo) (hactive : ¬ 0 < s.activeBatchCount) :
    ∀ batch ∈ s.batches, batch.phase = .deleted := by
  have hcount := h.active
  rw [Nat.eq_zero_of_not_pos hactive, eq_comm, countP_eq_zero] at hcount
  intro batch hbatch
  simpa using hcount batch hbatch

/-- With every batch gone the cursor goes back to the first entry not released. -/
theorem recoverCursor (h : PipeInv s lo) (hs : s.thread = .recoverCursor) :
    PipeInv { s with dispatchSn := s.nextCommitSn, thread := .recoverEpoch }
      s.batches.length := by
  have hthread := h.thread
  simp only [ThreadInv, hs] at hthread
  obtain ⟨hepoch, hdeleted⟩ := hthread
  have hcursor : s.cursor = s.dispatchSn := by simp [cursor, hs]
  have hmono := h.startAt_mono le_rfl h.lo_le le_rfl
  rw [h.startAt_lo, startAt_length, hcursor] at hmono
  have hhead : ∀ batch, s.batches[lo]? = some batch →
      batch.phase.popped = 0 ∧ batch.committed = false := by
    intro batch hb
    have hphase := hdeleted batch (mem_of_getElem? hb)
    refine ⟨by simp [hphase, popped], ?_⟩
    rw [← Bool.not_eq_true]
    intro hcommitted
    have hreleasing := (h.batch lo batch hb).committed_imp le_rfl hcommitted
    simp [hphase, IsReleasing] at hreleasing
  have hpopping : s.popping lo = 0 := by
    unfold popping
    rcases hb : s.batches[lo]? with _ | batch
    · rfl
    · exact (hhead batch hb).1
  have hcommitting : s.committing lo = 0 := by
    unfold committing
    rcases hb : s.batches[lo]? with _ | batch
    · rfl
    · simp [(hhead batch hb).2]
  exact
    { h with
      batch := by
        intro i batch hb
        have hinv := h.batch i batch hb
        have hphase := hdeleted batch (mem_of_getElem? hb)
        have hi := lt_length (s := s) hb
        exact
          { hinv with
            settled := fun _ => .inr hphase
            settled_committed := fun _ _ hnot => absurd rfl hnot
            stop_eq := fun hlo => absurd hlo (by omega)
            epoch_eq := fun hlo => absurd hlo (by omega)
            committed_imp := fun hlo => absurd hlo (by omega)
            front := fun hfront => by simp [hphase, IsFront] at hfront }
      lo_le := Nat.le_refl _
      startAt_lo := startAt_length _
      thread := ⟨hepoch, hdeleted, rfl⟩
      dispatchSn_le := by
        have hle := h.dispatchSn_le
        change s.nextCommitSn ≤ s.ring.length
        omega
      beginSn_eq := by
        have hbegin := h.beginSn_eq
        rw [hpopping] at hbegin
        simp only [skipping, hs] at hbegin
        simpa [popping, skipping] using hbegin
      applied_eq := by
        have happlied := h.applied_eq
        rw [hcommitting] at happlied
        simpa [committing] using happlied }

theorem recoverEpoch (h : PipeInv s lo) (hs : s.thread = .recoverEpoch) :
    PipeInv { s with dispatcherEpoch := s.epoch, thread := .top } lo := by
  have hthread := h.thread
  simp only [ThreadInv, hs] at hthread
  obtain ⟨hepoch, hdeleted, hlo⟩ := hthread
  have hcursor : cursor { s with dispatcherEpoch := s.epoch, thread := .top } =
      s.cursor := by
    simp [cursor, hs]
  exact
    { h with
      batch := by
        intro i batch hb
        have hinv := h.batch i batch hb
        have hi := lt_length (s := s) hb
        have hle := hinv.epoch_le
        exact
          { hinv with
            epoch_le := Nat.le_trans hle (Nat.le_of_lt hepoch)
            settled_committed := fun _ heq => by
              change batch.epoch = s.epoch at heq
              omega
            stop_eq := fun hle => stop_congr (hinv.stop_eq hle) rfl hcursor
            epoch_eq := fun hle => absurd hle (by omega) }
      startAt_lo := startAt_lo_congr h.startAt_lo rfl hcursor rfl
      thread := trivial
      beginSn_eq := by
        have hbegin := h.beginSn_eq
        simp only [skipping, hs] at hbegin
        exact hbegin
      epoch_le := Nat.le_refl _ }

/-! ### Skipped transactions -/

/-- The compare-and-swap succeeds only if there is no unreleased batch and nothing has
been added to the new one. -/
theorem skip_alone (h : PipeInv s lo) (hs : s.thread = .skip ctx)
    (hnext : s.nextCommitSn = s.dispatchSn) : lo = s.batches.length ∧ ctx.txList = [] := by
  have hthread := h.thread
  simp only [ThreadInv, hs] at hthread
  have hcursor : s.cursor = ctx.batchSn := by simp [cursor, hs]
  have hmono := h.startAt_mono le_rfl h.lo_le le_rfl
  rw [h.startAt_lo, startAt_length, hcursor] at hmono
  have hle := h.lo_le
  exact ⟨by omega, eq_nil_of_length_eq_zero (by omega)⟩

theorem skip (h : PipeInv s lo) (hs : s.thread = .skip ctx)
    (hnext : s.nextCommitSn = s.dispatchSn) :
    PipeInv
      { s with
        nextCommitSn := s.dispatchSn + 1
        applied := s.applied ++ (s.ring[s.dispatchSn]?.map fun tx => (tx, none)).toList
        thread := .skipPop ctx } lo := by
  obtain ⟨rfl, htxs⟩ := h.skip_alone hs hnext
  have hthread := h.thread
  simp only [ThreadInv, hs] at hthread
  obtain ⟨hsubTasks, -, -, hlt⟩ := hthread
  rw [List.getElem?_eq_getElem hlt]
  exact
    { h with
      batch := by
        intro i batch hb
        have hinv := h.batch i batch hb
        have hi := lt_length (s := s) hb
        exact
          { hinv with
            appliedBy_eq := by
              refine (appliedBy_append (s := s)).trans ?_
              simpa using hinv.appliedBy_eq
            settled_committed := fun hlt heq _ => hinv.settled_committed hlt heq (by
              simp [Resetting, hs])
            stop_eq := fun hlo => absurd hlo (by omega)
            front := fun hfront => by
              rcases hinv.settled hi with hphase | hphase <;>
                simp [hphase, IsFront] at hfront }
      startAt_lo := startAt_length _
      thread := ⟨hsubTasks, htxs, hlt, rfl⟩
      beginSn_eq := by
        have hbegin := h.beginSn_eq
        simp only [skipping, hs, popping, List.getElem?_length, map_none, getD_none] at hbegin ⊢
        omega
      applied_eq := by
        have happlied := h.applied_eq
        simp only [committing, List.getElem?_length, map_none, getD_none,
          Nat.add_zero, hnext] at happlied ⊢
        rw [map_append, happlied, take_succ_eq_append_getElem hlt]
        simp
      applied_lt := by
        intro entry hentry c hc
        rcases mem_append.mp hentry with hold | hnew
        · exact h.applied_lt entry hold c hc
        · obtain rfl : entry = (s.ring[s.dispatchSn], none) := by simpa using hnew
          simp at hc }

theorem skipPop (h : PipeInv s lo) (hs : s.thread = .skipPop ctx) :
    PipeInv (s.skipPop ctx) lo := by
  have hthread := h.thread
  simp only [ThreadInv, hs] at hthread
  obtain ⟨hsubTasks, htxs, hlt, rfl⟩ := hthread
  have hstart : s.nextCommitSn = s.dispatchSn + 1 := by
    rw [← h.startAt_lo, startAt_length, cursor, hs]
  have hbegin : s.beginSn = s.dispatchSn := by
    have hbegin := h.beginSn_eq
    simp only [skipping, hs, popping, List.getElem?_length, map_none, getD_none] at hbegin
    omega
  have hpop : s.pop = { s with beginSn := s.beginSn + 1 } := by
    rw [Pipeline.pop, if_pos (hbegin ▸ hlt)]
  have hcursor : (s.skipPop ctx).cursor = s.cursor := by
    simp [cursor, Pipeline.skipPop, hs, htxs]
  rw [Pipeline.skipPop, hpop, if_pos htxs] at hcursor ⊢
  exact
    { h with
      batch := fun i batch hb =>
        (h.batch i batch hb).transfer rfl rfl rfl (by simp [Resetting, hs])
          (startAt_congr rfl hcursor) rfl
      startAt_lo := startAt_lo_congr h.startAt_lo rfl hcursor rfl
      thread := ⟨hsubTasks, by simp [htxs], by simp [htxs]⟩
      dispatchSn_le := hlt
      beginSn_eq := by
        simp only [skipping, popping, List.getElem?_length, map_none, getD_none]
        omega }

/-! ### Pushing a batch -/

theorem appliedBy_length (h : PipeInv s lo) : s.appliedBy s.batches.length = [] := by
  rw [appliedBy, map_eq_nil_iff, filter_eq_nil_iff]
  intro entry hentry hlast
  have hlt := h.applied_lt entry hentry _ (by simpa using hlast)
  exact Nat.lt_irrefl _ hlt

theorem getElem?_activate (hget : (s.activate ctx).batches[i]? = some batch) :
    s.batches[i]? = some batch ∨ i = s.batches.length ∧ batch = ctx.toBatch s.dispatcherEpoch := by
  rw [Pipeline.activate] at hget
  rcases Nat.lt_or_ge i s.batches.length with hi | hi
  · rw [List.getElem?_append_left hi] at hget
    exact .inl hget
  · rw [List.getElem?_append_right hi, List.getElem?_singleton] at hget
    obtain ⟨hzero, hbatch⟩ := ite_none_right_eq_some.mp hget
    exact .inr ⟨by omega, (some_inj.mp hbatch).symm⟩

section

variable (h : PipeInv s lo)

include h

theorem toBatch_inv (hsubTasks : 0 < ctx.subTasks.length)
    (hring : ctx.txList <+: s.ring.drop ctx.batchSn)
    (hdispatch : s.dispatchSn = ctx.batchSn + ctx.txList.length) (htxs : ctx.txList ≠ []) :
    BatchInv (s.activate ctx) lo s.batches.length (ctx.toBatch s.dispatcherEpoch) where
  taskCount_pos := hsubTasks
  length_subTasks := length_replicate
  taskFinish_eq := by simp [Building.toBatch, count_replicate]
  running_iff := by simpa [Building.toBatch] using hsubTasks
  txList_pos := length_pos_iff.mpr htxs
  txList_ring := hring
  appliedBy_eq := h.appliedBy_length
  epoch_le := Nat.le_refl _
  settled := fun hlt => absurd hlt (Nat.not_lt.mpr h.lo_le)
  settled_committed := fun hlt => absurd hlt (Nat.not_lt.mpr h.lo_le)
  stop_eq := fun _ => by
    simp [startAt, Pipeline.activate, cursor, Batch.stop, Building.toBatch, hdispatch]
  epoch_eq := fun _ => rfl
  committed_imp := fun _ hcommitted => by simp [Building.toBatch] at hcommitted
  releasing_imp := False.elim
  popped_le := Nat.zero_le _
  front := False.elim

theorem activate (hs : s.thread = .prepare ctx) :
    PipeInv (s.activate ctx) lo := by
  have hthread := h.thread
  simp only [ThreadInv, hs] at hthread
  obtain ⟨hsubTasks, hring, hdispatch, htxs⟩ := hthread
  have hcursor : s.cursor = ctx.batchSn := by simp [cursor, hs]
  have hstart : ∀ j, j ≤ s.batches.length → (s.activate ctx).startAt j = s.startAt j := by
    intro j hj
    rw [startAt, startAt, Pipeline.activate, map_append]
    rcases Nat.lt_or_eq_of_le hj with hlt | rfl
    · rw [List.getElem?_append_left (by simpa using hlt), List.getElem?_eq_getElem (by simpa)]
      rfl
    · simp [hcursor, Building.toBatch]
  have hlo : (s.activate ctx).batches[lo]? = s.batches[lo]? ∨ s.batches[lo]? = none ∧
        (s.activate ctx).batches[lo]? = some (ctx.toBatch s.dispatcherEpoch) := by
    rcases Nat.lt_or_eq_of_le h.lo_le with hlt | rfl
    · exact .inl (List.getElem?_append_left hlt)
    · exact .inr ⟨List.getElem?_length _, List.getElem?_concat_length⟩
  exact
    { h with
      batch := by
        intro i batch hget
        rcases getElem?_activate hget with hget | ⟨rfl, rfl⟩
        · have hinv := h.batch i batch hget
          exact
            { hinv with
              settled_committed := fun hlt heq _ => hinv.settled_committed hlt heq (by
                simp [Resetting, hs])
              stop_eq := fun hlo =>
                (hinv.stop_eq hlo).trans (hstart (i + 1) (lt_length hget)).symm }
        · exact h.toBatch_inv hsubTasks hring hdispatch htxs
      lo_le := by
        rw [Pipeline.activate, length_append]
        exact Nat.le_add_right_of_le h.lo_le
      startAt_lo := (hstart lo h.lo_le).trans h.startAt_lo
      thread := by
        refine ⟨ctx.toBatch s.dispatcherEpoch, List.getElem?_concat_length, Nat.zero_le _, ?_⟩
        intro j _ hj
        exact List.getElem?_replicate_of_lt hj
      active := by
        rw [Pipeline.activate, countP_append, ← h.active]
        rfl
      beginSn_eq := by
        have hbegin := h.beginSn_eq
        simp only [skipping, hs] at hbegin
        refine hbegin.trans (congrArg _ ?_)
        unfold popping
        rcases hlo with hlo | ⟨hnone, hnew⟩
        · rw [hlo]
        · rw [hnone, hnew]
          rfl
      applied_eq := by
        refine h.applied_eq.trans (congrArg (fun n => s.ring.take (s.nextCommitSn + n)) ?_)
        unfold committing
        rcases hlo with hlo | ⟨hnone, hnew⟩
        · rw [hlo]
        · rw [hnone, hnew]
          rfl
      applied_lt := by
        intro entry hentry c hc
        rw [Pipeline.activate, length_append]
        exact Nat.lt_add_right _ (h.applied_lt entry hentry c hc)
      ordered := by
        intro i j left right hij hleft hright hepoch hdone
        rcases getElem?_activate hright with hright | ⟨rfl, rfl⟩
        · rcases getElem?_activate hleft with hleft | ⟨rfl, rfl⟩
          · exact h.ordered i j left right hij hleft hright hepoch hdone
          · have hj := lt_length hright
            omega
        · simp [Building.toBatch] at hdone }

theorem setPushThread (hrest : s.cursor = s.dispatchSn ∧ ¬ s.Resetting ∧ s.skipping = 0)
    {thread : DispatcherPhase ρ}
    (hcursor' : cursor { s with thread := thread } = s.dispatchSn)
    (hskipping' : skipping { s with thread := thread } = 0)
    (hthread : ThreadInv { s with thread := thread } lo) :
    PipeInv { s with thread := thread } lo :=
  h.setThread hrest.2.1 hrest.2.2 (hcursor'.trans hrest.1.symm) hskipping' hthread h.dispatchSn_le

theorem pushSubTask (hs : s.thread = .push b pushed)
    (hb : s.batches[b]? = some batch) (hmore : pushed < batch.taskCount) :
    PipeInv
      { s with
        batches := s.batches.set b { batch with subTasks := batch.subTasks.set pushed .queued }
        thread := .push b (pushed + 1) } lo := by
  have hinv := h.batch b batch hb
  have hthread := h.thread
  simp only [ThreadInv, hs] at hthread
  obtain ⟨other, hother, -, hunpushed⟩ := hthread
  obtain rfl : batch = other := some_inj.mp (hb.symm.trans hother)
  have hphase := hunpushed pushed le_rfl hmore
  -- The dispatcher first looks away, so that the subtask may change under it.
  have htop : PipeInv { s with thread := .top } lo :=
    h.setPushThread (by simp [cursor, Resetting, skipping, hs]) rfl rfl trivial
  have hquiet := htop.quiet (b := b) hb
    (show Quiet batch { batch with subTasks := batch.subTasks.set pushed .queued } from
      ⟨rfl, rfl, rfl, rfl, rfl, Iff.rfl⟩)
    { htop.batch b batch hb with
      length_subTasks := by
        rw [length_set]
        exact hinv.length_subTasks
      taskFinish_eq := by
        rw [count_set_of_ne hphase (by decide) (by decide)]
        exact hinv.taskFinish_eq } trivial
  refine hquiet.setPushThread ⟨rfl, by simp [Resetting], rfl⟩ rfl rfl ?_
  refine ⟨_, by rw [getElem?_set_batch hb, if_pos rfl], Nat.zero_le _, ?_⟩
  intro j hj hlt
  rw [List.getElem?_set_ne (by omega)]
  exact hunpushed j (by omega) hlt

theorem markUnpushed (hs : s.thread = .markUnpushed b pushed) (hb : s.batches[b]? = some batch) :
    PipeInv
      { s with
        batches := s.batches.set b { batch with taskFail := batch.taskFail + 1 }
        thread := .finishUnpushed b pushed } lo := by
  have hthread := h.thread
  simp only [ThreadInv, hs] at hthread
  have hunseen : ThreadQuiet batch { batch with taskFail := batch.taskFail + 1 } :=
    ⟨rfl, id, id, fun _ => id⟩
  have hquiet := h.quiet hb
    (show Quiet batch { batch with taskFail := batch.taskFail + 1 } from
      ⟨rfl, rfl, rfl, rfl, rfl, Iff.rfl⟩)
    { h.batch b batch hb with } (threadInv_set hb hunseen h.thread)
  exact hquiet.setPushThread (by simp [cursor, Resetting, skipping, hs]) rfl rfl
    (pushedUpTo_set hb hunseen hthread)

end

theorem count_finishUnpushed {l : List SubTaskPhase}
    (hunpushed : ∀ j, pushed ≤ j → j < l.length → l[j]? = some .unpushed) :
    (l.take pushed ++ List.replicate (l.length - pushed) SubTaskPhase.finished).count
        SubTaskPhase.finished =
      l.count .finished + (l.length - pushed) := by
  have hrest : (l.drop pushed).count .finished = 0 := by
    rw [count_eq_zero]
    intro hmem
    obtain ⟨j, hj⟩ := mem_iff_getElem?.mp hmem
    rw [List.getElem?_drop] at hj
    have hlt := (List.getElem?_eq_some_iff.mp hj).1
    rw [hunpushed (pushed + j) (Nat.le_add_right _ _) hlt] at hj
    simp at hj
  have hsplit : l.count .finished = (l.take pushed).count .finished := by
    rw [← take_append_drop pushed l, count_append, hrest, take_append_drop]
    rfl
  rw [count_append, count_replicate_self, hsplit]

theorem finishUnpushed (h : PipeInv s lo) (hs : s.thread = .finishUnpushed b pushed) :
    PipeInv (s.finishUnpushed b pushed) lo := by
  have hthread := h.thread
  simp only [ThreadInv, hs] at hthread
  obtain ⟨batch, hb, hmore, hunpushed⟩ := hthread
  have hinv := h.batch b batch hb
  have hlt := running_of_unfinished hinv (hunpushed pushed le_rfl hmore) (by decide)
  have hrunning := hinv.running_iff.mpr hlt
  have hlo : lo ≤ b := h.lo_le_of_not_settled hb (by simp [hrunning, IsSettled])
  have huncommitted : ¬ batch.committed = true := fun hcommitted => by
    simpa [hrunning, IsReleasing] using hinv.committed_imp hlo hcommitted
  have hcount := count_finishUnpushed (hinv.length_subTasks ▸ hunpushed)
  rw [hinv.length_subTasks, ← hinv.taskFinish_eq] at hcount
  -- The finished subtasks are never more than all subtasks.
  have hle : batch.taskFinish + (batch.taskCount - pushed) ≤ batch.taskCount := by
    rw [← hcount]
    refine count_le_length.trans ?_
    rw [length_append, length_take, length_replicate, hinv.length_subTasks]
    omega
  have htop : PipeInv { s with thread := .top } lo :=
    h.setPushThread (by simp [cursor, Resetting, skipping, hs]) rfl rfl trivial
  have hphase : ∀ last : Bool,
      (last = true ↔ batch.taskFinish + (batch.taskCount - pushed) = batch.taskCount) →
      PipeInv
        { s with
          batches := s.batches.set b
            { batch with
              taskFinish := batch.taskFinish + (batch.taskCount - pushed)
              phase := if last then .abandoned else .running
              subTasks := batch.subTasks.take pushed ++
                List.replicate (batch.taskCount - pushed) .finished }
          thread := .top } lo := by
    intro last hlast
    refine htop.quiet (b := b) hb ?_ ?_ trivial
    · refine ⟨rfl, rfl, rfl, ?_, rfl, ?_⟩ <;>
        cases last <;> simp [hrunning, popped]
    exact
      { htop.batch b batch hb with
        length_subTasks := by
          rw [length_append, length_take, length_replicate, hinv.length_subTasks]
          change _ = batch.taskCount
          omega
        taskFinish_eq := hcount.symm
        running_iff := by
          cases last with
          | true => simp [hlast.mp rfl]
          | false =>
            simp only [Bool.false_eq_true, false_iff] at hlast
            simp only [Bool.false_eq_true, if_false, true_iff]
            omega
        settled := fun hlt => absurd hlt (Nat.not_lt.mpr hlo)
        committed_imp := fun _ hcommitted => absurd hcommitted huncommitted
        releasing_imp := by cases last <;> exact False.elim
        popped_le := by cases last <;> exact Nat.zero_le _
        front := by cases last <;> exact False.elim }
  rw [Pipeline.finishUnpushed, hb]
  simp only [modifyBatch, modify_eq_set _ hb, Batch.addFinished, hrunning]
  by_cases hlast : batch.taskFinish + (batch.taskCount - pushed) = batch.taskCount
  · simp only [hlast, if_true]
    have hnew := hphase true (by simp [hlast])
    simp only [hlast, if_true] at hnew
    refine hnew.setPushThread ⟨rfl, by simp [Resetting], rfl⟩ rfl rfl ?_
    exact ⟨_, by rw [getElem?_set_batch hb, if_pos rfl], rfl⟩
  · simp only [hlast, if_false]
    exact hphase false (by simp [hlast])

/-! ### The dispatcher thread -/

theorem close (h : PipeInv s lo) (hs : s.thread = .aggregate ctx ∨ s.thread = .skip ctx) :
    PipeInv (s.close ctx) lo := by
  have hthread := h.thread
  have hctx : 0 < ctx.subTasks.length ∧ ctx.txList <+: s.ring.drop ctx.batchSn ∧
      s.dispatchSn = ctx.batchSn + ctx.txList.length := by
    rcases hs with hs | hs <;> simp only [ThreadInv, hs] at hthread
    · exact hthread
    · exact ⟨hthread.1, hthread.2.1, hthread.2.2.1⟩
  obtain ⟨hcursor, hreset, hskipping⟩ :
      s.cursor = ctx.batchSn ∧ ¬ s.Resetting ∧ s.skipping = 0 := by
    rcases hs with hs | hs <;> simp [cursor, Resetting, skipping, hs]
  rw [Pipeline.close]
  split_ifs with htxs
  · refine h.setThread hreset hskipping ?_ rfl trivial h.dispatchSn_le
    rw [hcursor, hctx.2.2, htxs]
    rfl
  · exact h.setThread hreset hskipping hcursor.symm rfl ⟨hctx.1, hctx.2.1, hctx.2.2, htxs⟩
      h.dispatchSn_le

theorem rewind (h : PipeInv s lo) (hs : s.thread = .aggregate ctx ∨ s.thread = .prepare ctx) :
    PipeInv (s.rewind ctx) lo := by
  obtain ⟨hcursor, hreset, hskipping⟩ :
      s.cursor = ctx.batchSn ∧ ¬ s.Resetting ∧ s.skipping = 0 := by
    rcases hs with hs | hs <;> simp [cursor, Resetting, skipping, hs]
  have hle := h.cursor_le_dispatchSn
  refine h.setThread hreset hskipping hcursor.symm rfl trivial ?_
  have hring := h.dispatchSn_le
  omega

theorem prefix_snoc {l ring : List (TxInfo ρ)} {start : Nat} {tx : TxInfo ρ}
    (hheld : l <+: ring.drop start) (htx : ring[start + l.length]? = some tx) :
    l ++ [tx] <+: ring.drop start := by
  obtain ⟨rest, hrest⟩ := hheld
  have hhead : rest[0]? = some tx := by
    rw [← List.getElem?_drop, ← hrest, List.getElem?_append_right le_rfl, Nat.sub_self] at htx
    exact htx
  cases rest with
  | nil => simp at hhead
  | cons first rest =>
    obtain rfl : first = tx := by simpa using hhead
    exact ⟨rest, by simpa using hrest⟩

theorem aggregate (h : PipeInv s lo) (hs : s.thread = .aggregate ctx) (ok : Bool) :
    PipeInv (s.aggregate ctx ok) lo := by
  have hthread := h.thread
  simp only [ThreadInv, hs] at hthread
  obtain ⟨hsubTasks, hring, hdispatch⟩ := hthread
  obtain ⟨hcursor, hreset, hskipping⟩ :
      s.cursor = ctx.batchSn ∧ ¬ s.Resetting ∧ s.skipping = 0 := by
    simp [cursor, Resetting, skipping, hs]
  unfold Pipeline.aggregate
  by_cases hfull : aggregateRowThreshold ≤ ctx.rowCount
  · rw [if_pos hfull]
    exact h.close (.inl hs)
  rw [if_neg hfull]
  by_cases hbelow : s.dispatchSn < s.beginSn
  · rw [if_pos hbelow]
    exact h.rewind (.inl hs)
  rw [if_neg hbelow]
  rcases htx : s.ring[s.dispatchSn]? with _ | tx
  · by_cases hwait : ok = true ∧ 0 < s.activeBatchCount
    · simpa only [if_pos hwait] using h
    · simpa only [if_neg hwait] using h.close (.inl hs)
  have hlt := (List.getElem?_eq_some_iff.mp htx).1
  simp only
  by_cases hskip : tx.commitVersion ≤ s.refreshScn
  · rw [if_pos hskip]
    exact h.setThread hreset hskipping hcursor.symm rfl ⟨hsubTasks, hring, hdispatch, hlt⟩
      h.dispatchSn_le
  rw [if_neg hskip]
  generalize (if ctx.schemaVersion ≤ 0 then tx.schemaVersion else ctx.schemaVersion) = schema
  by_cases hschema : tx.schemaVersion ≠ schema
  · rw [if_pos hschema]
    exact h.close (.inl hs)
  split_ifs with hok
  · refine h.setThread hreset hskipping hcursor.symm rfl ⟨?_, ?_, ?_⟩ hlt
    · rw [addTxRedoToSubtasks_eq, foldl_addRow_length]
      exact hsubTasks
    · exact prefix_snoc hring (hdispatch ▸ htx)
    · simp [hdispatch, Nat.add_assoc]
  · exact h.rewind (.inl hs)

theorem applied_le_ring (h : PipeInv s lo) : s.nextCommitSn + s.committing lo ≤ s.ring.length := by
  have hmono := h.startAt_mono le_rfl h.lo_le le_rfl
  rw [h.startAt_lo, startAt_length] at hmono
  have hcursor := h.cursor_le_dispatchSn
  have hdispatch := h.dispatchSn_le
  have hskipping : s.dispatchSn + s.skipping ≤ s.ring.length := by
    have hthread := h.thread
    unfold ThreadInv at hthread
    unfold skipping
    cases hs : s.thread with
    | skipPop =>
      simp only [hs] at hthread
      exact hthread.2.2.1
    | _ => exact hdispatch
  unfold committing
  rcases hb : s.batches[lo]? with _ | batch
  · simp only [map_none, getD_none]
    omega
  have hstop := stop_le_ring (h.batch lo batch hb)
  rw [Batch.stop, ← startAt_eq hb, h.startAt_lo] at hstop
  simp only [map_some, getD_some]
  split_ifs
  · exact hstop
  · omega

theorem prefix_drop_append {l ring : List (TxInfo ρ)} {start : Nat} (tx : TxInfo ρ)
    (hheld : l <+: ring.drop start) (hle : start ≤ ring.length) :
    l <+: (ring ++ [tx]).drop start := by
  rw [drop_append_of_le_length hle]
  exact prefix_append_of_prefix hheld

theorem push (h : PipeInv s lo) (tx : TxInfo ρ) : PipeInv { s with ring := s.ring ++ [tx] } lo :=
  { h with
    batch := fun i batch hb =>
      { h.batch i batch hb with
        txList_ring := prefix_drop_append tx (h.batch i batch hb).txList_ring
          (Nat.le_of_add_right_le (stop_le_ring (h.batch i batch hb))) }
    thread := by
      have hthread := h.thread
      have hle := h.dispatchSn_le
      unfold ThreadInv at hthread ⊢
      cases hs : s.thread with
      | top | check => trivial
      | aggregate =>
        simp only [hs] at hthread ⊢
        obtain ⟨hsubTasks, hring, hdispatch⟩ := hthread
        exact ⟨hsubTasks, prefix_drop_append tx hring (by omega), hdispatch⟩
      | skip =>
        simp only [hs, length_append] at hthread ⊢
        obtain ⟨hsubTasks, hring, hdispatch, hlt⟩ := hthread
        exact ⟨hsubTasks, prefix_drop_append tx hring (by omega), hdispatch,
          Nat.lt_add_right _ hlt⟩
      | prepare =>
        simp only [hs] at hthread ⊢
        obtain ⟨hsubTasks, hring, hdispatch, htxs⟩ := hthread
        exact ⟨hsubTasks, prefix_drop_append tx hring (by omega), hdispatch, htxs⟩
      | skipPop =>
        simp only [hs, length_append] at hthread ⊢
        obtain ⟨hsubTasks, htxs, hlt, hlo⟩ := hthread
        exact ⟨hsubTasks, htxs, Nat.lt_add_right _ hlt, hlo⟩
      | _ => simpa only [hs] using hthread
    dispatchSn_le := by
      rw [length_append]
      exact Nat.le_add_right_of_le h.dispatchSn_le
    applied_eq := by
      refine h.applied_eq.trans ?_
      exact (take_append_of_le_length h.applied_le_ring).symm }

theorem dispatch (h : PipeInv s lo) (executorCount : Nat) (ok : Bool) :
    ∃ lo', PipeInv (s.dispatch executorCount ok) lo' := by
  have hthread := h.thread
  unfold ThreadInv at hthread
  unfold Pipeline.dispatch
  cases hs : s.thread with
  | top =>
    have hrest : s.cursor = s.dispatchSn ∧ ¬ s.Resetting ∧ s.skipping = 0 := by
      simp [cursor, Resetting, skipping, hs]
    have hepoch := h.epoch_le
    refine ⟨lo, ?_⟩
    by_cases hchanged : s.dispatcherEpoch ≠ s.epoch
    · simp only [if_pos hchanged]
      exact h.setPushThread hrest rfl rfl (lt_of_le_of_ne hepoch hchanged)
    simp only [if_neg hchanged]
    split_ifs
    · exact h
    · exact h.setPushThread hrest rfl rfl trivial
  | recoverWait =>
    simp only [hs] at hthread
    refine ⟨lo, ?_⟩
    simp only
    split_ifs with hactive
    · exact h
    · exact h.setPushThread (by simp [cursor, Resetting, skipping, hs]) rfl rfl
        ⟨hthread, h.all_deleted hactive⟩
  | recoverReload =>
    simp only [hs] at hthread
    exact ⟨lo, h.setThread (by simp [Resetting, hs]) (by simp [skipping, hs])
      (by simp [cursor, hs]) rfl hthread h.dispatchSn_le⟩
  | recoverCursor => exact ⟨_, h.recoverCursor hs⟩
  | recoverEpoch => exact ⟨lo, h.recoverEpoch hs⟩
  | check =>
    have hrest : s.cursor = s.dispatchSn ∧ ¬ s.Resetting ∧ s.skipping = 0 := by
      simp [cursor, Resetting, skipping, hs]
    refine ⟨lo, ?_⟩
    simp only
    split_ifs with hskip
    · exact h.setPushThread hrest rfl rfl trivial
    obtain ⟨-, hcount, -⟩ := not_or.mp hskip |>.imp_right not_or.mp
    refine h.setPushThread hrest rfl rfl ⟨?_, nil_prefix, rfl⟩
    rw [length_replicate]
    exact Nat.pos_of_ne_zero hcount
  | aggregate => exact ⟨lo, h.aggregate hs ok⟩
  | skip =>
    refine ⟨lo, ?_⟩
    simp only [Pipeline.skip]
    split_ifs with hnext
    · exact h.skip hs hnext
    · exact h.close (.inr hs)
  | skipPop => exact ⟨lo, h.skipPop hs⟩
  | prepare =>
    refine ⟨lo, ?_⟩
    simp only
    split_ifs
    · exact h.activate hs
    · exact h.rewind (.inr hs)
  | push =>
    simp only [hs] at hthread
    obtain ⟨batch, hb, -, hunpushed⟩ := hthread
    refine ⟨lo, ?_⟩
    simp only [hb, map_some, getD_some, modifyBatch, modify_eq_set _ hb]
    split_ifs with hall
    · exact h.setPushThread (by simp [cursor, Resetting, skipping, hs]) rfl rfl trivial
    · exact h.pushSubTask hs hb (Nat.lt_of_not_le hall)
    · exact h.setPushThread (by simp [cursor, Resetting, skipping, hs]) rfl rfl
        ⟨batch, hb, Nat.lt_of_not_le hall, hunpushed⟩
  | markUnpushed =>
    simp only [hs] at hthread
    obtain ⟨batch, hb, -⟩ := hthread
    refine ⟨lo, ?_⟩
    simp only [modifyBatch, modify_eq_set _ hb]
    exact h.markUnpushed hs hb
  | finishUnpushed => exact ⟨lo, h.finishUnpushed hs⟩
  | incEpoch =>
    simp only [hs] at hthread
    exact ⟨lo, h.incEpoch.setPushThread (by simp [cursor, Resetting, skipping, hs]) rfl rfl hthread⟩
  | decActive b =>
    simp only [hs] at hthread
    obtain ⟨batch, hb, hphase⟩ := hthread
    have htop : PipeInv { s with thread := .top } lo :=
      h.setPushThread (by simp [cursor, Resetting, skipping, hs]) rfl rfl trivial
    refine ⟨lo, ?_⟩
    simp only [modifyBatch, modify_eq_set _ hb]
    exact htop.delete (b := b) hb (.inr ⟨hphase, rfl⟩)

theorem step (h : PipeInv s lo) {executorCount : Nat} {event : PipeEvent ρ} {s' : Pipeline ρ}
    (hstep : s.step executorCount event = some s') : ∃ lo', PipeInv s' lo' := by
  cases event with
  | push tx =>
    cases hstep
    exact ⟨lo, h.push tx⟩
  | updateRefreshScn =>
    cases hstep
    exact ⟨lo, { h with batch := fun i batch hb => { h.batch i batch hb with } }⟩
  | incEpoch =>
    cases hstep
    exact ⟨lo, h.incEpoch⟩
  | dispatch ok =>
    cases hstep
    exact h.dispatch executorCount ok
  | startSubTask =>
    obtain ⟨batch, hb, hphase, rfl⟩ := moveSubTask_eq_some hstep
    refine ⟨lo, h.subTask hb hphase (by decide) (by decide) ?_ batch.taskFail⟩
    split_ifs <;> decide
  | dropSubTask =>
    obtain ⟨batch, hb, hphase, rfl⟩ := moveSubTask_eq_some hstep
    exact ⟨lo, h.subTask hb hphase (by decide) (by decide) (by decide) batch.taskFail⟩
  | markSubTask =>
    obtain ⟨batch, hb, hphase, rfl⟩ := moveSubTask_eq_some hstep
    exact ⟨lo, h.subTask hb hphase (by decide) (by decide) (by decide) (batch.taskFail + 1)⟩
  | finishSubTask =>
    obtain ⟨batch, hb, hphase, rfl⟩ := moveSubTask_eq_some hstep
    exact ⟨lo, h.finishSubTask hb hphase⟩
  | finishBatch => exact h.finishBatch hstep

theorem run {executorCount persistedScn : Nat} {events : List (PipeEvent ρ)}
    (hrun : events.foldlM (Pipeline.step executorCount) (Pipeline.init persistedScn) = some s) :
    ∃ lo, PipeInv s lo := by
  refine (Execution.of_foldlM hrun).invariant (P := fun s => ∃ lo, PipeInv s lo)
    ⟨0, init persistedScn⟩ ?_
  rintro event state next ⟨lo, h⟩ hnext
  exact h.step hnext

end PipeInv

/-- A release or a skip is under way. -/
def Pipeline.Releasing (s : Pipeline ρ) : Prop :=
  (∃ batch ∈ s.batches, batch.phase.IsReleasing) ∨ ∃ ctx, s.thread = .skipPop ctx

theorem PipeInv.idle {s : Pipeline ρ} {lo : Nat} (h : PipeInv s lo) (hidle : ¬ s.Releasing) :
    s.applied.length = s.nextCommitSn ∧ s.beginSn = s.nextCommitSn := by
  obtain ⟨hbatches, hthread⟩ := not_or.mp hidle
  have hskipping : s.skipping = 0 := by
    unfold skipping
    cases hs : s.thread with
    | skipPop ctx => exact absurd ⟨ctx, hs⟩ hthread
    | _ => rfl
  have hhead : ∀ batch, s.batches[lo]? = some batch →
      batch.phase.popped = 0 ∧ batch.committed = false := by
    intro batch hb
    have hquiet : ¬ batch.phase.IsReleasing := fun hreleasing =>
      hbatches ⟨batch, mem_of_getElem? hb, hreleasing⟩
    constructor
    · cases hphase : batch.phase <;> simp_all [popped, IsReleasing]
    · rw [← Bool.not_eq_true]
      exact fun hcommitted => hquiet ((h.batch lo batch hb).committed_imp le_rfl hcommitted)
  have hzero : s.popping lo = 0 ∧ s.committing lo = 0 := by
    unfold popping committing
    rcases hb : s.batches[lo]? with _ | batch
    · exact ⟨rfl, rfl⟩
    · simp [hhead batch hb]
  have hlength := congrArg List.length h.applied_eq
  have hring := h.applied_le_ring
  have hbegin := h.beginSn_eq
  rw [length_map, length_take, hzero.2] at hlength
  omega

/-- In every state that the threads can reach, the applied transactions are the first
entries of the ring in ring order; a committed batch has applied its own transactions and
another batch none; `next_commit_sn_` counts what is applied and popped, unless a release
or a skip is under way; a batch that commits finds every earlier batch of its epoch
committed; and no fatal branch was taken. -/
theorem batches_commit_in_order (executorCount persistedScn : Nat) (events : List (PipeEvent ρ))
    (s : Pipeline ρ)
    (hrun : events.foldlM (Pipeline.step executorCount) (Pipeline.init persistedScn) = some s) :
    s.applied.map Prod.fst = s.ring.take s.applied.length ∧ (∀ b batch, s.batches[b]? = some batch →
        s.appliedBy b = if batch.committed then batch.txList else []) ∧
      (¬ s.Releasing → s.applied.length = s.nextCommitSn ∧ s.beginSn = s.nextCommitSn) ∧
      (∀ (i j : Nat) (left right : Batch ρ), i < j → s.batches[i]? = some left →
        s.batches[j]? = some right → left.epoch = right.epoch → right.committed = true →
        left.committed = true) ∧
      s.fatal = false := by
  obtain ⟨lo, h⟩ := PipeInv.run hrun
  refine ⟨?_, fun b batch hb => (h.batch b batch hb).appliedBy_eq, h.idle, h.ordered, h.fatal⟩
  have hlength := congrArg List.length h.applied_eq
  rw [length_map, length_take, Nat.min_eq_left h.applied_le_ring] at hlength
  rw [hlength]
  exact h.applied_eq

/-- The dispatcher makes a batch of the next transaction and pushes its one subtask. -/
def dispatchOne : List (PipeEvent Unit) :=
  [true, true, true, false, true, true, true].map .dispatch

/-- Two transactions in two batches.  The second batch waits for its turn when the plugin of
the first one fails, so both are cleaned up, and the dispatcher recovers and makes two new
batches; the second one waits again while the first one gets to its commit. -/
def recoveredRun : List (PipeEvent Unit) :=
  flatten
    [[.push ⟨1, 5, 0, 1, false, [], []⟩, .push ⟨2, 7, 0, 2, false, [], []⟩],
      dispatchOne, dispatchOne,
      [.startSubTask 1 0 false, .finishSubTask 1 0], replicate 3 (.finishBatch 1 true),
      [.startSubTask 0 0 true, .markSubTask 0 0, .finishSubTask 0 0],
      replicate 5 (.finishBatch 0 true), replicate 2 (.finishBatch 1 true),
      replicate 5 (.dispatch true), dispatchOne, dispatchOne,
      [.startSubTask 3 0 false, .finishSubTask 3 0], replicate 2 (.finishBatch 3 true),
      [.startSubTask 2 0 false, .finishSubTask 2 0], replicate 3 (.finishBatch 2 true)]

/-- Both batches commit. -/
def committedRun : List (PipeEvent Unit) :=
  recoveredRun ++ (replicate 5 (.finishBatch 2 true) ++ replicate 9 (.finishBatch 3 true))

theorem batches_commit_in_order_recovered :
    ∃ s, committedRun.foldlM (Pipeline.step 1) (Pipeline.init 0) = some s ∧
      s.nextCommitSn = 2 ∧ s.applied.map Prod.snd = [some 2, some 3] ∧
      s.applied.map Prod.fst = s.ring.take s.applied.length ∧
      (∀ (i j : Nat) (left right : Batch Unit), i < j → s.batches[i]? = some left →
        s.batches[j]? = some right → left.epoch = right.epoch → right.committed = true →
        left.committed = true) ∧ s.fatal = false := by
  have hrun : (committedRun.foldlM (Pipeline.step 1) (Pipeline.init 0)).map
      (fun s => (s.nextCommitSn, s.applied.map Prod.snd)) = some (2, [some 2, some 3]) := by
    decide +kernel
  obtain ⟨s, hs, heq⟩ := Option.map_eq_some_iff.mp hrun
  obtain ⟨hsn, hbatches⟩ := Prod.mk.inj heq
  obtain ⟨hring, -, -, hordered, hfatal⟩ := batches_commit_in_order 1 0 committedRun s hs
  exact ⟨s, hs, hsn, hbatches, hring, hordered, hfatal⟩

section

variable {executorCount persistedScn b : Nat} {events : List (PipeEvent ρ)} {s : Pipeline ρ}
  {batch : Batch ρ} (hrun : events.foldlM (step executorCount) (init persistedScn) = some s)
  (hb : s.batches[b]? = some batch)

include hrun hb

/-- One batch at a time has its turn to commit and pop its entries, and the dispatcher
neither skips an entry nor ends a recovery meanwhile. -/
theorem commit_turn_exclusive (hfront : batch.phase.IsFront) :
    (∀ i other, s.batches[i]? = some other → other.phase.IsFront → i = b) ∧
      s.skipping = 0 ∧ ¬ s.Resetting := by
  obtain ⟨lo, h⟩ := PipeInv.run hrun
  obtain ⟨hlo, -, hreset, hskip⟩ := h.front_spec hb hfront
  exact ⟨fun i other hi hother => (h.front_spec hi hother).1.trans hlo.symm, hskip, hreset⟩

end

theorem commit_turn_exclusive_recovered :
    ∃ s, recoveredRun.foldlM (step 1) (init 0) = some s ∧
      s.batches.map Batch.phase = [.deleted, .deleted, .commit, .spinPast false] ∧
      (∀ i other, s.batches[i]? = some other → other.phase.IsFront → i = 2) ∧ s.skipping = 0 := by
  have hrun : (recoveredRun.foldlM (step 1) (init 0)).map (fun s => s.batches.map Batch.phase) =
      some [.deleted, .deleted, .commit, .spinPast false] := by decide +kernel
  obtain ⟨s, hs, hphases⟩ := Option.map_eq_some_iff.mp hrun
  have hcommit : (s.batches[2]?).map Batch.phase = some .commit := by
    rw [← getElem?_map, hphases]
    rfl
  obtain ⟨batch, hb, hphase⟩ := Option.map_eq_some_iff.mp hcommit
  obtain ⟨hturn, hskip, -⟩ := commit_turn_exclusive hs hb (by rw [hphase]; trivial)
  exact ⟨s, hs, hphases, hturn, hskip⟩

end SeekDB.ChangeStream
