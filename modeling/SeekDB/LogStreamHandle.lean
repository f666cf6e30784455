/-
Freezing the last group, handing complete groups to the engine and sliding
committed ones out keep the stream's invariant, whatever the engine answers.
-/
import SeekDB.LogStreamInv

namespace SeekDB.LogSlidingWindow

/-- The invariant for some view of the tasks, with the references that are held
around the call. -/
def Sound (allocator : LSNAllocator) (held : Nat → Nat) (stream : LogSlidingWindow) : Prop :=
  ∃ view, Viewed stream.sw held view ∧ Keeps allocator stream view

section

variable {stream next : LogSlidingWindow} {held : Nat → Nat} {view : Nat → LogTask}
  {allocator : LSNAllocator} {logId : Int}

theorem Guarded.sound (h : Guarded (Keeps allocator) stream held view logId) :
    Sound allocator held stream :=
  ⟨view, h.viewed, h.holds⟩

theorem Sound.of_same (h : Sound allocator held stream) (hsame : SameFrame stream next)
    (hsw : next.sw = stream.sw) : Sound allocator held next := by
  obtain ⟨view, hview, hkeeps⟩ := h
  exact ⟨view, hsw ▸ hview, hkeeps.of_same hsame⟩

theorem withLogTask_sound {β : Type} {failed : ObRet → β}
    {body : LogSlidingWindow → β × LogSlidingWindow} (h : Sound allocator held stream)
    (hbody : ∀ state held' view, Guarded (Keeps allocator) state held' view logId →
      Sound allocator held' (body state).2) :
    Sound allocator held (stream.withLogTask logId failed body).2 := by
  obtain ⟨view, hview, hkeeps⟩ := h
  exact withLogTask_rule (P := Keeps allocator) (Q := fun _ => Keeps allocator)
    (keeps_guardClosed allocator) (fun _ => keeps_guardClosed allocator) hview hkeeps
    (fun _ _ => hkeeps) (fun state held' hguard => hbody state held' view hguard)

/-- The flags of a task that the invariant reads. -/
structure SameFlags (task next : LogTask) : Prop where
  preSlide_eq : next.preSlide = task.preSlide
  isFreezed_eq : next.isFreezed = task.isFreezed

theorem Guarded.setSameFlags (h : Guarded (Keeps allocator) stream held view logId) {task : LogTask}
    (hle : logId ≤ allocator.lastLogId) (hflags : SameFlags (stream.logTask logId) task) :
    Guarded (Keeps allocator) (stream.setLogTask logId task) held
      (Function.update view logId.toNat task) logId := by
  obtain ⟨hslide, hopen⟩ := h.flags
  refine h.setLogTask_keeps task hle ?_ ?_
  · rw [hflags.preSlide_eq, hflags.isFreezed_eq]
    exact hslide
  · rw [hflags.isFreezed_eq]
    exact hopen

theorem Guarded.setChecksum (h : Guarded (Keeps allocator) stream held view logId)
    (checksum : LogChecksum) :
    Guarded (Keeps allocator) { stream with checksum := checksum } held view logId :=
  h.of_same ⟨rfl, rfl, rfl, .refl _⟩ rfl

theorem tryFreezeLastLogTask_sound (h : Sound allocator held stream)
    (hcut : allocator.isNeedCut = true) (expectedLogId : Int) (expectedEndLsn : Nat) :
    Sound allocator held (stream.tryFreezeLastLogTask expectedLogId expectedEndLsn).2 := by
  unfold tryFreezeLastLogTask
  split
  · exact h
  refine withLogTask_sound h ?_
  intro state held' view hguard
  dsimp only
  split
  · exact hguard.sound
  split
  · exact hguard.sound
  rename_i hvalid _
  obtain ⟨hslide, -⟩ := hguard.flags
  obtain ⟨hpre, hfrozen⟩ := tryFreeze_flags (state.logTask expectedLogId) expectedEndLsn
  have hle := hguard.id_le (ne_default_of_isValid (by simpa using hvalid))
  refine (hguard.setLogTask_keeps _ hle ?_ ?_).sound
  · rw [hpre]
    exact fun hpre' => hfrozen (hslide hpre')
  · rw [hcut]
    exact fun hfalse => absurd hfalse (by decide)

end

/-! Handing groups to the engine. -/

section

variable {stream : LogSlidingWindow} {held : Nat → Nat} {view : Nat → LogTask}
  {allocator : LSNAllocator} (hashes : Checksums)

theorem setLastSubmitLogInfo_same (stream : LogSlidingWindow) (lsn endLsn : Nat) (logId : Int) :
    SameFrame stream (stream.setLastSubmitLogInfo lsn endLsn logId) ∧
      (stream.setLastSubmitLogInfo lsn endLsn logId).sw = stream.sw := by
  unfold setLastSubmitLogInfo
  split <;> exact ⟨⟨rfl, rfl, rfl, .refl _⟩, rfl⟩

theorem handOver_same (stream : LogSlidingWindow) (header : LogGroupEntryHeader)
    (ctx : FlushLogCbCtx) (logEndLsn : Nat) (answer : ObRet) :
    SameFrame stream (stream.handOver header ctx logEndLsn answer).2 ∧
      (stream.handOver header ctx logEndLsn answer).2.sw = stream.sw := by
  unfold handOver
  split
  · exact ⟨.refl stream, rfl⟩
  rename_i headerBytes _
  have hmarks := stream.groupBuffer.fill_marks ctx.lsn (bytesAt headerBytes)
    headerBytes.length
  split
  · rename_i groupBuffer hfill
    rw [hfill] at hmarks
    have hfilled := sameFrame_setBuffer stream hmarks
    split
    · exact ⟨hfilled, rfl⟩
    split
    · exact ⟨hfilled, rfl⟩
    split
    · exact ⟨hfilled, rfl⟩
    rename_i logWriteBuf _ _ _
    obtain ⟨hsame, hsw⟩ := setLastSubmitLogInfo_same
      { stream with
        groupBuffer := groupBuffer
        logEngine := stream.logEngine ++
          [⟨ctx, logWriteBuf, (logWriteBuf.map groupBuffer.pieceBytes).flatten⟩] }
      ctx.lsn logEndLsn ctx.logId
    exact ⟨hfilled.trans { hsame with }, hsw⟩
  · rename_i hfill
    rw [hfill] at hmarks
    exact ⟨sameFrame_setBuffer stream hmarks, rfl⟩

theorem updateHeaderInfo_flags (task : LogTask) (committedEndLsn : Nat)
    (accumChecksum : BitVec 64) :
    SameFlags task (task.updateHeaderInfo committedEndLsn accumChecksum).2 := by
  unfold LogTask.updateHeaderInfo
  split
  · exact ⟨rfl, rfl⟩
  split <;> exact ⟨rfl, rfl⟩

theorem submitLogTask_sound {logId : Int} {task : LogTask} (answer : ObRet)
    (hguard : Guarded (Keeps allocator) stream held view logId) (hle : logId ≤ allocator.lastLogId)
    (hflags : SameFlags (stream.logTask logId) task) :
    Sound allocator held (stream.submitLogTask hashes logId task answer).2 := by
  have hreset : SameFlags (stream.logTask logId) task.resetPreSubmit :=
    ⟨hflags.preSlide_eq, hflags.isFreezed_eq⟩
  unfold submitLogTask
  dsimp only
  split
  · exact (hguard.setSameFlags hle hreset).sound
  split
  · exact (hguard.setSameFlags hle hreset).sound
  rename_i header dataChecksum checksum _
  have hupdated := updateHeaderInfo_flags (task.setGroupLogChecksum dataChecksum)
    header.committedEndLsn header.accumulatedChecksum
  generalize (task.setGroupLogChecksum dataChecksum).updateHeaderInfo
    header.committedEndLsn header.accumulatedChecksum = updated at hupdated ⊢
  -- whichever way the group went, only contents and checksums have changed
  have hout : ∀ out : ObRet × LogSlidingWindow,
      (∃ ctx logEndLsn, out = { stream with checksum := checksum }.handOver header ctx
          logEndLsn answer) ∨ out = (updated.1, { stream with checksum := checksum }) →
      SameFrame stream out.2 ∧ out.2.sw = stream.sw := by
    rintro out (⟨ctx, logEndLsn, rfl⟩ | rfl)
    · obtain ⟨hsame, hsw⟩ := handOver_same { stream with checksum := checksum } header ctx
        logEndLsn answer
      exact ⟨{ hsame with }, hsw⟩
    · exact ⟨⟨rfl, rfl, rfl, .refl _⟩, rfl⟩
  generalize hchosen : (ite (updated.1.isSuccess = true) _ _ : ObRet × LogSlidingWindow) = out
  obtain ⟨hsame, hsw⟩ := hout out (by
    split at hchosen
    · exact .inl ⟨_, _, hchosen.symm⟩
    · exact .inr hchosen.symm)
  have htask : out.2.logTask logId = stream.logTask logId := by
    unfold logTask
    rw [hsw]
  have hflags' : SameFlags (out.2.logTask logId) updated.2 := by
    rw [htask]
    exact ⟨hupdated.preSlide_eq.trans hflags.preSlide_eq,
      hupdated.isFreezed_eq.trans hflags.isFreezed_eq⟩
  have hafter := hguard.of_same hsame hsw
  split
  · exact (hafter.setSameFlags hle hflags').sound
  have hback : SameFlags (out.2.logTask logId) updated.2.resetPreSubmit :=
    ⟨hflags'.preSlide_eq, hflags'.isFreezed_eq⟩
  have hrolled := hafter.setChecksum
    (checksum.rollbackAccumChecksum header.accumulatedChecksum).2
  exact (hrolled.setSameFlags hle hback).sound

theorem tryPreSubmit_flags (task : LogTask) : SameFlags task task.tryPreSubmit.2 := by
  unfold LogTask.tryPreSubmit
  split <;> exact ⟨rfl, rfl⟩

theorem submitNextLog_sound (h : Sound allocator held stream) (answer : ObRet) :
    Sound allocator held (stream.submitNextLog hashes answer).2 := by
  refine withLogTask_sound h ?_
  intro state held' view hguard
  dsimp only
  split
  · exact hguard.sound
  rename_i hvalid
  have hle := hguard.id_le (ne_default_of_isValid (by simpa using hvalid))
  have hflags := tryPreSubmit_flags (state.logTask (stream.lastSubmitLogId + 1))
  split
  · exact (hguard.setSameFlags hle hflags).sound
  · exact submitLogTask_sound hashes answer hguard hle hflags

theorem handleNextSubmitLog_sound (h : Sound allocator held stream) (answers : List ObRet) :
    Sound allocator held (stream.handleNextSubmitLog hashes answers).2 := by
  induction answers generalizing stream with
  | nil => exact h
  | cons answer rest ih =>
    have hround := submitNextLog_sound hashes h answer
    unfold handleNextSubmitLog
    split
    · rename_i next hnext
      rw [hnext] at hround
      exact ih hround
    · rename_i hnext
      rw [hnext] at hround
      exact hround

end

/-! Sliding. -/

section

variable {stream : LogSlidingWindow} {held : Nat → Nat} {view : Nat → LogTask}
  {allocator : LSNAllocator} (hashes : Checksums)

theorem slidingCb_same (stream : LogSlidingWindow) (sn : Int) :
    SameFrame stream (stream.slidingCb hashes sn).2 ∧
      (stream.slidingCb hashes sn).2.sw = stream.sw := by
  unfold slidingCb
  dsimp only
  split
  · unfold tryUpdateLastSlideLogInfo
    split <;> exact ⟨⟨rfl, rfl, rfl, .refl _⟩, rfl⟩
  · exact ⟨⟨rfl, rfl, rfl, .refl _⟩, rfl⟩

/-- The first task has been slid out.  It was frozen, so it is not the group to
which the allocator may still append. -/
theorem Keeps.slideOne {sw : FixedSlidingWindow LogTask} (hkeeps : Keeps allocator stream view)
    (hslide : (view stream.sw.beginSn).preSlide = true)
    (hbegin : sw.beginSn = stream.sw.beginSn + 1) (hsize : sw.size = stream.sw.size) :
    Keeps allocator { stream with sw := sw } view := by
  obtain ⟨hinv, halloc⟩ := hkeeps
  have hfrozen := hinv.pre_slide _ hslide
  have hle := hinv.id_le (ne_default_of_isFreezed hfrozen)
  refine ⟨{ hinv with size := hsize.trans hinv.size, begin_le := ?_, open_task := ?_ }, halloc⟩
  · rw [hbegin]
    push_cast
    omega
  intro hcut
  obtain ⟨hopen, hunfrozen⟩ := hinv.open_task hcut
  refine ⟨?_, hunfrozen⟩
  have hne : (stream.sw.beginSn : Int) ≠ stream.lsnAllocator.lastLogId := by
    intro heq
    rw [← heq, Int.toNat_natCast, hfrozen] at hunfrozen
    exact absurd hunfrozen (by decide)
  push_cast
  omega

theorem slide_sound (fuel : Nat) (h : Sound allocator held stream) :
    Sound allocator held (stream.slide hashes fuel).2 := by
  induction fuel generalizing stream with
  | zero => exact h
  | succ fuel ih =>
    unfold slide
    split
    · exact h
    split
    · exact h
    rename_i hend hslid
    obtain ⟨hsame, hsw⟩ := slidingCb_same hashes stream stream.sw.beginSn
    have hcalled := h.of_same hsame hsw
    split
    · rename_i next hnext
      rw [hnext] at hsw hcalled
      obtain ⟨view, hview, hkeeps⟩ := hcalled
      have hlt : next.sw.beginSn < next.sw.endSn := by
        rw [hsw]
        omega
      obtain ⟨hview', hbegin, hsize, -⟩ := hview.slideOne hlt
      refine ih ⟨view, hview', hkeeps.slideOne ?_ hbegin hsize⟩
      rw [← hview.data _ le_rfl hlt, hsw]
      simpa [logTask, LogTask.canBeSlid] using hslid
    · rename_i hnext
      rw [hnext] at hcalled
      exact hcalled

/-- A failed slide takes the mark off the task again, which may have left the
window. -/
theorem Sound.resetPreSlide (h : Sound allocator held stream) {logId : Int}
    (hpos : 0 < logId) (hheld : 0 < held logId.toNat) (hle : logId ≤ allocator.lastLogId) :
    Sound allocator held
      (stream.setLogTask logId (stream.logTask logId).resetPreSlide) := by
  obtain ⟨view, hview, hinv, rfl⟩ := h
  obtain ⟨hlow, hhigh⟩ := hview.counts.held_range _ hheld
  refine ⟨_, hview.setData hlow hhigh (stream.logTask logId).resetPreSlide, ?_, rfl⟩
  have hupdate := hinv.update logId.toNat (stream.logTask logId).resetPreSlide (by omega)
    (fun hpre => absurd hpre (by simp [LogTask.resetPreSlide])) ?_
  · exact hupdate.of_same ⟨rfl, rfl, rfl, .refl _⟩
  · intro hcut hlast
    obtain ⟨hopen, hunfrozen⟩ := hinv.open_task hcut
    rw [← hlast, Int.toNat_natCast, ← hview.data _ (by omega) hhigh] at hunfrozen
    exact hunfrozen

theorem slideFirstLog_sound (h : Sound allocator held stream) (committedEndLsn : Nat) :
    Sound allocator held (stream.slideFirstLog hashes committedEndLsn).2 := by
  refine withLogTask_sound h ?_
  intro state held' view hguard
  dsimp only
  split
  · exact hguard.sound
  split
  · rename_i hready
    have hle := hguard.id_le (ne_default_of_isFreezed hready.1)
    obtain ⟨-, hopen⟩ := hguard.flags
    have hmarked := (hguard.setLogTask_keeps
      (state.logTask stream.sw.beginSn).tryPreSlide.2 hle (fun _ => hready.1) hopen).sound
    split
    · exact hguard.sound
    have hslid := slide_sound hashes state.sw.size hmarked
    split
    · rename_i next hnext
      rw [hnext] at hslid
      exact hslid
    · rename_i hnext
      rw [hnext] at hslid
      exact hslid.resetPreSlide hguard.available.pos hguard.referenced hle
  · exact hguard.sound

theorem slideCommittedLogs_sound (committedEndLsn fuel : Nat) (h : Sound allocator held stream) :
    Sound allocator held (stream.slideCommittedLogs hashes committedEndLsn fuel).2 := by
  induction fuel generalizing stream with
  | zero => exact h
  | succ fuel ih =>
    have hround := slideFirstLog_sound hashes h committedEndLsn
    unfold slideCommittedLogs
    split
    · rename_i next hnext
      rw [hnext] at hround
      exact ih hround
    · rename_i hnext
      rw [hnext] at hround
      exact hround

theorem handleCommittedLog_sound (h : Sound allocator held stream) :
    Sound allocator held (stream.handleCommittedLog hashes).2 := by
  unfold handleCommittedLog
  split
  · exact h
  · exact slideCommittedLogs_sound hashes _ _ h

end

end SeekDB.LogSlidingWindow
