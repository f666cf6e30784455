/-
What holds of a log stream whatever its callers and its engine do.

The ids above the allocator's last one have untouched tasks, only frozen tasks
are slid out, and as long as the allocator may still append to the last group
that group is in the window and not frozen.
-/
import SeekDB.LogSlidingWindowRules
import SeekDB.LsnAllocatorClock

namespace SeekDB

open Function

namespace LogGroupBuffer

/-- The buffer differs in its contents at most. -/
structure SameMarks (buffer next : LogGroupBuffer) : Prop where
  start : next.startLsn = buffer.startLsn
  reuse : next.reuseLsn = buffer.reuseLsn
  available : next.availableBufferSize = buffer.availableBufferSize

theorem SameMarks.refl (buffer : LogGroupBuffer) : SameMarks buffer buffer := ⟨rfl, rfl, rfl⟩

theorem SameMarks.trans {buffer mid next : LogGroupBuffer} (h : SameMarks buffer mid)
    (h' : SameMarks mid next) : SameMarks buffer next :=
  ⟨h'.start.trans h.start, h'.reuse.trans h.reuse, h'.available.trans h.available⟩

theorem prepareFill_marks {buffer next : LogGroupBuffer} {lsn startPos : Nat} {len : Int}
    (h : buffer.prepareFill lsn len = .ok (startPos, next)) : SameMarks buffer next := by
  obtain ⟨-, -, rfl⟩ := prepareFill_ok h
  exact ⟨rfl, rfl, rfl⟩

theorem fill_marks (buffer : LogGroupBuffer) (lsn : Nat) (data : Nat → UInt8) (dataLen : Int) :
    SameMarks buffer (buffer.fill lsn data dataLen).2 := by
  unfold fill
  split
  · exact .refl buffer
  · rename_i hprepare
    exact { prepareFill_marks hprepare with }

theorem fillPaddingBody_marks (buffer : LogGroupBuffer) (lsn : Nat) (data : Nat → UInt8)
    (dataLen logBodySize : Int) :
    SameMarks buffer (buffer.fillPaddingBody lsn data dataLen logBodySize).2 := by
  unfold fillPaddingBody
  split
  · exact .refl buffer
  · rename_i hprepare
    exact { prepareFill_marks hprepare with }

end LogGroupBuffer

namespace LogSlidingWindow

/-- The invariant of a stream and the view of its tasks. -/
structure StreamInv (stream : LogSlidingWindow) (view : Nat → LogTask) : Prop where
  size : stream.sw.size = palfSlidingWindowSize
  clock : ∃ clock, Shows stream.lsnAllocator clock
  last_nonneg : 0 ≤ stream.lsnAllocator.lastLogId
  begin_le : (stream.sw.beginSn : Int) ≤ stream.lsnAllocator.lastLogId + 1
  beyond : ∀ id : Nat, stream.lsnAllocator.lastLogId < id → view id = default
  pre_slide : ∀ id, (view id).preSlide = true → (view id).isFreezed = true
  open_task : stream.lsnAllocator.isNeedCut = false →
    (stream.sw.beginSn : Int) ≤ stream.lsnAllocator.lastLogId ∧
      (view stream.lsnAllocator.lastLogId.toNat).isFreezed = false
  start_le : stream.groupBuffer.startLsn ≤ stream.groupBuffer.reuseLsn
  available : stream.groupBuffer.availableBufferSize = defaultGroupBufferSize

/-- Nothing that the invariant reads has changed, the tasks apart. -/
structure SameFrame (stream next : LogSlidingWindow) : Prop where
  begin_eq : next.sw.beginSn = stream.sw.beginSn
  size_eq : next.sw.size = stream.sw.size
  allocator_eq : next.lsnAllocator = stream.lsnAllocator
  marks : stream.groupBuffer.SameMarks next.groupBuffer

theorem SameFrame.refl (stream : LogSlidingWindow) : SameFrame stream stream :=
  ⟨rfl, rfl, rfl, .refl _⟩

theorem SameFrame.trans {stream mid next : LogSlidingWindow} (h : SameFrame stream mid)
    (h' : SameFrame mid next) : SameFrame stream next :=
  ⟨h'.begin_eq.trans h.begin_eq, h'.size_eq.trans h.size_eq,
    h'.allocator_eq.trans h.allocator_eq, h.marks.trans h'.marks⟩

section

variable {stream next : LogSlidingWindow} {held : Nat → Nat} {view : Nat → LogTask}
  {logId : Int}

theorem StreamInv.of_same (hinv : StreamInv stream view) (hsame : SameFrame stream next) :
    StreamInv next view := by
  obtain ⟨hbegin, hsize, halloc, hstart, hreuse, havailable⟩ := hsame
  constructor
  · exact hsize.trans hinv.size
  · rw [halloc]
    exact hinv.clock
  · rw [halloc]
    exact hinv.last_nonneg
  · rw [halloc, hbegin]
    exact hinv.begin_le
  · rw [halloc]
    exact hinv.beyond
  · exact hinv.pre_slide
  · rw [halloc, hbegin]
    exact hinv.open_task
  · rw [hstart, hreuse]
    exact hinv.start_le
  · exact havailable.trans hinv.available

theorem streamInv_guardClosed : GuardClosed StreamInv :=
  fun _ _ _ hbegin hsize _ hinv => hinv.of_same ⟨hbegin, hsize, rfl, .refl _⟩

theorem StreamInv.update (hinv : StreamInv stream view) (id : Nat) (task : LogTask)
    (hid : (id : Int) ≤ stream.lsnAllocator.lastLogId)
    (hslide : task.preSlide = true → task.isFreezed = true)
    (hopen : stream.lsnAllocator.isNeedCut = false →
      (id : Int) = stream.lsnAllocator.lastLogId → task.isFreezed = false) :
    StreamInv stream (Function.update view id task) := by
  have hnonneg := hinv.last_nonneg
  refine { hinv with beyond := ?_, pre_slide := ?_, open_task := ?_ }
  · intro other hother
    rw [update_of_ne (by omega)]
    exact hinv.beyond other hother
  · intro other
    by_cases heq : other = id
    · subst heq
      rw [update_self]
      exact hslide
    · rw [update_of_ne heq]
      exact hinv.pre_slide other
  · intro hcut
    obtain ⟨hbegin, hfrozen⟩ := hinv.open_task hcut
    refine ⟨hbegin, ?_⟩
    by_cases heq : stream.lsnAllocator.lastLogId.toNat = id
    · rw [heq, update_self]
      exact hopen hcut (by omega)
    · rw [update_of_ne heq]
      exact hfrozen

theorem StreamInv.id_le (hinv : StreamInv stream view) {id : Nat} (hne : view id ≠ default) :
    (id : Int) ≤ stream.lsnAllocator.lastLogId := by
  by_contra hlt
  exact hne (hinv.beyond id (by omega))

theorem ne_default_of_isValid {task : LogTask} (h : task.isValid = true) : task ≠ default := by
  rintro rfl
  exact Bool.false_ne_true h

theorem ne_default_of_isFreezed {task : LogTask} (h : task.isFreezed = true) : task ≠ default := by
  rintro rfl
  exact Bool.false_ne_true h

/-- The invariant, on an allocator that stays as it is. -/
def Keeps (allocator : LSNAllocator) (stream : LogSlidingWindow) (view : Nat → LogTask) : Prop :=
  StreamInv stream view ∧ stream.lsnAllocator = allocator

variable {allocator : LSNAllocator}

theorem keeps_guardClosed (allocator : LSNAllocator) : GuardClosed (Keeps allocator) :=
  fun _ _ _ hbegin hsize hend hinv =>
    ⟨streamInv_guardClosed _ _ _ hbegin hsize hend hinv.1, hinv.2⟩

theorem Keeps.of_same (hinv : Keeps allocator stream view) (hsame : SameFrame stream next) :
    Keeps allocator next view :=
  ⟨hinv.1.of_same hsame, hsame.allocator_eq.trans hinv.2⟩

section

variable (h : Guarded (Keeps allocator) stream held view logId)

include h

theorem Guarded.of_same (hsame : SameFrame stream next) (hsw : next.sw = stream.sw) :
    Guarded (Keeps allocator) next held view logId := by
  refine ⟨?_, h.holds.of_same hsame, ?_, h.referenced⟩
  · rw [hsw]
    exact h.viewed
  · obtain ⟨hpos, hlow, hhigh⟩ := h.available
    exact ⟨hpos, hsw ▸ hlow, hsw ▸ hhigh⟩

theorem Guarded.setLogTask_keeps (task : LogTask) (hid : logId ≤ allocator.lastLogId)
    (hslide : task.preSlide = true → task.isFreezed = true)
    (hopen : allocator.isNeedCut = false → logId = allocator.lastLogId → task.isFreezed = false) :
    Guarded (Keeps allocator) (stream.setLogTask logId task) held
      (Function.update view logId.toNat task) logId := by
  have hpos := h.available.pos
  obtain ⟨hinv, halloc⟩ := h.holds
  refine ⟨h.setLogTask task, ?_, ⟨hpos, h.available.low, h.available.high⟩, h.referenced⟩
  have hupdate := hinv.update logId.toNat task (by rw [halloc]; omega) hslide
    (fun hcut heq => hopen (halloc ▸ hcut) (by rw [halloc] at heq; omega))
  exact ⟨hupdate.of_same ⟨rfl, rfl, rfl, .refl _⟩, halloc⟩

theorem Guarded.flags :
    ((stream.logTask logId).preSlide = true → (stream.logTask logId).isFreezed = true) ∧
      (allocator.isNeedCut = false → logId = allocator.lastLogId →
        (stream.logTask logId).isFreezed = false) := by
  obtain ⟨hinv, rfl⟩ := h.holds
  rw [h.logTask_eq]
  refine ⟨hinv.pre_slide _, ?_⟩
  rintro hcut rfl
  exact (hinv.open_task hcut).2

theorem Guarded.id_le (hne : stream.logTask logId ≠ default) : logId ≤ allocator.lastLogId := by
  obtain ⟨hinv, rfl⟩ := h.holds
  rw [h.logTask_eq] at hne
  have hle := hinv.id_le hne
  have hpos := h.available.pos
  omega

end

end

/-! Freezing. -/

section

variable {stream : LogSlidingWindow} {held : Nat → Nat} {view : Nat → LogTask}
  {allocator : LSNAllocator}

theorem tryFreeze_flags (task : LogTask) (endLsn : Nat) :
    (task.tryFreeze endLsn).2.preSlide = task.preSlide ∧
      (task.isFreezed = true → (task.tryFreeze endLsn).2.isFreezed = true) := by
  rcases LogTask.tryFreeze_cases task endLsn with hsame | ⟨-, -, -, -, heq⟩
  · rw [hsame]
    exact ⟨rfl, id⟩
  · rw [heq]
    exact ⟨rfl, fun _ => rfl⟩

/-- Views that differ in one id at most. -/
def AgreesBut (logId : Int) (view view' : Nat → LogTask) : Prop :=
  ∀ id : Nat, (id : Int) ≠ logId → view' id = view id

theorem agreesBut_update {logId : Int} (hpos : 0 < logId) (view : Nat → LogTask) (task : LogTask) :
    AgreesBut logId view (Function.update view logId.toNat task) := by
  intro id hne
  exact update_of_ne (by omega) _ _

theorem AgreesBut.trans {logId : Int} {view mid view' : Nat → LogTask}
    (h : AgreesBut logId view mid) (h' : AgreesBut logId mid view') :
    AgreesBut logId view view' :=
  fun id hne => (h' id hne).trans (h id hne)

theorem tryFreezePrevLog_keeps (hview : Viewed stream.sw held view)
    (hinv : Keeps allocator stream view) {nextLogId : Int} (lsn : Nat)
    (hle : nextLogId ≤ allocator.lastLogId) :
    ∃ view', Viewed (stream.tryFreezePrevLog nextLogId lsn).2.sw held view' ∧
      Keeps allocator (stream.tryFreezePrevLog nextLogId lsn).2 view' ∧
      AgreesBut (nextLogId - 1) view view' := by
  unfold tryFreezePrevLog
  split
  · exact ⟨view, hview, hinv, fun _ _ => rfl⟩
  split
  · exact ⟨view, hview, hinv, fun _ _ => rfl⟩
  refine withLogTask_rule (P := Keeps allocator)
    (Q := fun _ next view' => Keeps allocator next view' ∧ AgreesBut (nextLogId - 1) view view')
    (keeps_guardClosed allocator) ?_ hview hinv (fun _ _ => ⟨hinv, fun _ _ => rfl⟩) ?_
  · intro _ _ _ _ hbegin hsize hend hpost
    exact ⟨keeps_guardClosed allocator _ _ _ hbegin hsize hend hpost.1, hpost.2⟩
  intro state held' hguard
  obtain ⟨hslide, -⟩ := hguard.flags
  have hkeep : ∀ task : LogTask, (task.preSlide = true → task.isFreezed = true) →
      ∃ view', Viewed (state.setLogTask (nextLogId - 1) task).sw held' view' ∧
        Keeps allocator (state.setLogTask (nextLogId - 1) task) view' ∧
        AgreesBut (nextLogId - 1) view view' := by
    intro task htask
    have hnext := hguard.setLogTask_keeps task (by omega) htask (by omega)
    exact ⟨_, hnext.viewed, hnext.holds, agreesBut_update hguard.available.pos view task⟩
  apply hkeep
  split
  · obtain ⟨hpre, hfrozen⟩ := tryFreeze_flags (state.logTask (nextLogId - 1)) lsn
    rw [hpre]
    exact fun h => hfrozen (hslide h)
  · exact hslide

theorem keepsBut_guardClosed (allocator : LSNAllocator) (logId : Int) (view : Nat → LogTask) :
    GuardClosed fun next view' => Keeps allocator next view' ∧ AgreesBut logId view view' :=
  fun _ _ _ hbegin hsize hend hpost =>
    ⟨keeps_guardClosed allocator _ _ _ hbegin hsize hend hpost.1, hpost.2⟩

end

/-! Filling. -/

section

variable {stream : LogSlidingWindow} {held : Nat → Nat} {view : Nat → LogTask}
  {allocator : LSNAllocator} (hashes : Checksums)

theorem sameFrame_setBuffer (stream : LogSlidingWindow) {buffer : LogGroupBuffer}
    (hmarks : stream.groupBuffer.SameMarks buffer) :
    SameFrame stream { stream with groupBuffer := buffer } :=
  ⟨rfl, rfl, rfl, hmarks⟩

theorem fillLogEntry_same (stream : LogSlidingWindow) (entryLsn scn : Nat) (logData : List UInt8) :
    SameFrame stream (stream.fillLogEntry hashes entryLsn scn logData).2 ∧
      (stream.fillLogEntry hashes entryLsn scn logData).2.sw = stream.sw := by
  have hdata := stream.groupBuffer.fill_marks (u64 (entryLsn + logEntryHeaderSize))
    (bytesAt logData) logData.length
  unfold fillLogEntry
  split
  · rename_i dataBuffer hfill
    rw [hfill] at hdata
    split
    · exact ⟨sameFrame_setBuffer stream hdata, rfl⟩
    split
    · exact ⟨sameFrame_setBuffer stream hdata, rfl⟩
    · exact ⟨sameFrame_setBuffer stream (hdata.trans (dataBuffer.fill_marks _ _ _)), rfl⟩
  · rename_i hfill
    rw [hfill] at hdata
    exact ⟨sameFrame_setBuffer stream hdata, rfl⟩

theorem fillPaddingLog_same (stream : LogSlidingWindow) (lsn scn : Nat) (logBodySize : Int) :
    SameFrame stream (stream.fillPaddingLog hashes lsn scn logBodySize).2 ∧
      (stream.fillPaddingLog hashes lsn scn logBodySize).2.sw = stream.sw := by
  unfold fillPaddingLog
  split
  · exact ⟨.refl stream, rfl⟩
  · exact ⟨sameFrame_setBuffer stream (stream.groupBuffer.fillPaddingBody_marks _ _ _ _), rfl⟩

theorem appendToGroupLog_keeps {lsn scn : Nat} {logId logEntrySize : Int} {logData : List UInt8}
    {out : (ObRet × Bool) × LogSlidingWindow} (hview : Viewed stream.sw held view)
    (hinv : Keeps allocator stream view) (hle : logId ≤ allocator.lastLogId)
    (hout : stream.appendToGroupLog hashes lsn logId scn logEntrySize logData = some out) :
    ∃ view', Viewed out.2.sw held view' ∧ Keeps allocator out.2 view' ∧
      AgreesBut logId view view' := by
  unfold appendToGroupLog at hout
  split at hout
  · cases hout
    exact ⟨view, hview, hinv, fun _ _ => rfl⟩
  refine withLogTaskWait_rule (P := Keeps allocator)
    (Q := fun _ next view' => Keeps allocator next view' ∧ AgreesBut logId view view')
    (keeps_guardClosed allocator) (fun _ => keepsBut_guardClosed allocator logId view)
    hview hinv (fun _ _ => ⟨hinv, fun _ _ => rfl⟩) ?_ hout
  intro state held' out' hguard hbody
  obtain ⟨hslide, hopen⟩ := hguard.flags
  have hpos := hguard.available.pos
  -- counting the entry and its bytes changes none of the flags
  have hcounted := hguard.setLogTask_keeps
    (((state.logTask logId).incUpdateMaxScn scn).updateDataLen logEntrySize) hle hslide hopen
  dsimp only at hbody
  set counted := ((state.logTask logId).incUpdateMaxScn scn).updateDataLen logEntrySize
  have hagrees := agreesBut_update hpos view counted
  split at hbody
  · simp at hbody
  have hfill := fillLogEntry_same hashes (state.setLogTask logId counted) lsn scn logData
  split at hbody
  · rename_i filled hfilled
    cases hbody
    rw [hfilled] at hfill
    have hdone := (hcounted.of_same hfill.1 hfill.2).setLogTask_keeps
      (counted.ref logEntrySize true) hle hslide hopen
    exact ⟨_, hdone.viewed, hdone.holds, hagrees.trans (agreesBut_update hpos _ _)⟩
  · rename_i hfilled
    cases hbody
    rw [hfilled] at hfill
    have hdone := hcounted.of_same hfill.1 hfill.2
    exact ⟨_, hdone.viewed, hdone.holds, hagrees⟩

theorem setInitialHeaderInfo_flags {task next : LogTask} {info : LogTaskHeaderInfo}
    (h : task.setInitialHeaderInfo info = (.success, next)) :
    next.isFreezed = task.isFreezed ∧ next.preSlide = task.preSlide ∧
      next.header.endLsn = task.header.endLsn := by
  unfold LogTask.setInitialHeaderInfo at h
  split at h
  · simp at h
  · obtain rfl := (Prod.mk.inj h).2
    exact ⟨rfl, rfl, rfl⟩

theorem tryFreezeByMyself_flags (task : LogTask) :
    task.tryFreezeByMyself.2.preSlide = task.preSlide ∧
      (task.isFreezed = true → task.tryFreezeByMyself.2.isFreezed = true) ∧
      (lsnIsValid task.header.endLsn = false → task.tryFreezeByMyself.2 = task) := by
  unfold LogTask.tryFreezeByMyself
  split
  · exact ⟨rfl, id, fun _ => rfl⟩
  · rename_i hvalid
    obtain ⟨hpre, hfrozen⟩ := tryFreeze_flags task task.header.endLsn
    exact ⟨hpre, hfrozen, fun hinvalid => absurd hinvalid hvalid⟩

theorem generateNewGroupLog_keeps {lsn scn : Nat} {logId logBodySize : Int} {isPaddingLog : Bool}
    {logData : List UInt8} {out : (ObRet × Bool) × LogSlidingWindow}
    (hview : Viewed stream.sw held view) (hinv : Keeps allocator stream view)
    (hle : logId ≤ allocator.lastLogId)
    (hfresh : logId = allocator.lastLogId → view logId.toNat = default)
    (hout : stream.generateNewGroupLog hashes lsn logId scn logBodySize isPaddingLog
      logData = some out) :
    ∃ view', Viewed out.2.sw held view' ∧ Keeps allocator out.2 view' ∧
      AgreesBut logId view view' := by
  unfold generateNewGroupLog at hout
  split at hout
  · cases hout
    exact ⟨view, hview, hinv, fun _ _ => rfl⟩
  refine withLogTaskWait_rule (P := Keeps allocator)
    (Q := fun _ next view' => Keeps allocator next view' ∧ AgreesBut logId view view')
    (keeps_guardClosed allocator) (fun _ => keepsBut_guardClosed allocator logId view)
    hview hinv (fun _ _ => ⟨hinv, fun _ _ => rfl⟩) ?_ hout
  intro state held' out' hguard hbody
  obtain ⟨hslide, -⟩ := hguard.flags
  have hpos := hguard.available.pos
  dsimp only at hbody
  split at hbody
  · rename_i initial hinitial
    obtain ⟨hfrozen₁, hslide₁, hend₁⟩ := setInitialHeaderInfo_flags hinitial
    obtain ⟨hslide₂, hfrozen₂, hsame₂⟩ := tryFreezeByMyself_flags initial
    have hslide' : initial.tryFreezeByMyself.2.preSlide = true →
        initial.tryFreezeByMyself.2.isFreezed = true := by
      intro hpre
      rw [hslide₂, hslide₁] at hpre
      exact hfrozen₂ (hfrozen₁.trans (hslide hpre))
    -- nobody has set the end of the newest group yet
    have hopen' : allocator.isNeedCut = false → logId = allocator.lastLogId →
        initial.tryFreezeByMyself.2.isFreezed = false := by
      intro _ hlast
      rw [hguard.logTask_eq, hfresh hlast] at hend₁ hfrozen₁
      rw [hsame₂ (by rw [hend₁]; rfl), hfrozen₁]
      rfl
    have hstarted := hguard.setLogTask_keeps initial.tryFreezeByMyself.2 hle hslide' hopen'
    have hagrees := agreesBut_update hpos view initial.tryFreezeByMyself.2
    split at hbody
    · simp at hbody
    have hfill : ∀ filled : ObRet × LogSlidingWindow,
        (filled = (state.setLogTask logId initial.tryFreezeByMyself.2).fillPaddingLog hashes
          lsn scn logBodySize ∨
        filled = (state.setLogTask logId initial.tryFreezeByMyself.2).fillLogEntry hashes
          (u64 (lsn + logGroupEntryHeaderSize)) scn logData) →
        Guarded (Keeps allocator) filled.2 held'
          (Function.update view logId.toNat initial.tryFreezeByMyself.2) logId := by
      rintro filled (rfl | rfl)
      · exact hstarted.of_same (fillPaddingLog_same hashes _ _ _ _).1
          (fillPaddingLog_same hashes _ _ _ _).2
      · exact hstarted.of_same (fillLogEntry_same hashes _ _ _ _).1
          (fillLogEntry_same hashes _ _ _ _).2
    generalize hchosen :
      (ite (isPaddingLog = true) _ _ : ObRet × LogSlidingWindow) = filled at hbody
    have hfilled := hfill filled (by cases isPaddingLog <;> simp_all)
    split at hbody
    · cases hbody
      have hdone := hfilled.setLogTask_keeps
        ((initial.tryFreezeByMyself.2.ref logBodySize true).setSubmitLogExist.2) hle hslide'
        hopen'
      exact ⟨_, hdone.viewed, hdone.holds, hagrees.trans (agreesBut_update hpos _ _)⟩
    · cases hbody
      exact ⟨_, hfilled.viewed, hfilled.holds, hagrees⟩
  · cases hbody
    exact ⟨_, hguard.viewed, hguard.holds, fun _ _ => rfl⟩

end

end LogSlidingWindow

end SeekDB
