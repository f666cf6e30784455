/-
Runs of a log stream: every call keeps the stream's invariant, in whatever
order the calls and the engine's callbacks come.
-/
import SeekDB.LogStreamHandle

namespace SeekDB.LogSlidingWindow

open LSNAllocator Option

variable {out : (ObRet × Bool) × LogSlidingWindow} {answers feedback : List ObRet}
  {info : PalfBaseInfo} {buf : List UInt8}

/-- The invariant holds, with the references that are held around the call. -/
def Healthy (held : Nat → Nat) (stream : LogSlidingWindow) : Prop :=
  Sound stream.lsnAllocator held stream

section

variable {stream next : LogSlidingWindow} {held : Nat → Nat} {view : Nat → LogTask}
  {allocator : LSNAllocator} {logId : Int}

theorem Sound.healthy (h : Sound allocator held stream) : Healthy held stream := by
  obtain ⟨view, hview, hinv, -⟩ := h
  exact ⟨view, hview, hinv, rfl⟩

theorem Healthy.of_same (h : Healthy held stream) (hsame : SameFrame stream next)
    (hsw : next.sw = stream.sw) : Healthy held next :=
  (Sound.of_same h hsame hsw).healthy

theorem withLogTask_healthy {β : Type} {failed : ObRet → β}
    {body : LogSlidingWindow → β × LogSlidingWindow} (h : Healthy held stream)
    (hbody : ∀ state held', Healthy held' state → Healthy held' (body state).2) :
    Healthy held (stream.withLogTask logId failed body).2 := by
  obtain ⟨view, hview, hinv, -⟩ := h
  have hrule : ∃ view', Viewed (stream.withLogTask logId failed body).2.sw held view' ∧
      StreamInv (stream.withLogTask logId failed body).2 view' := by
    refine withLogTask_rule (P := StreamInv) (Q := fun _ => StreamInv)
      streamInv_guardClosed (fun _ => streamInv_guardClosed) hview hinv (fun _ _ => hinv) ?_
    intro state held' hguard
    obtain ⟨view', hview', hinv', -⟩ :=
      hbody state held' ⟨view, hguard.viewed, hguard.holds, rfl⟩
    exact ⟨view', hview', hinv'⟩
  obtain ⟨view', hview', hinv'⟩ := hrule
  exact ⟨view', hview', hinv', rfl⟩

theorem StreamInv.setAllocator (hinv : StreamInv stream view)
    (hclock : ∃ clock, Shows allocator clock)
    (hlast : allocator.lastLogId = stream.lsnAllocator.lastLogId)
    (hcut : allocator.isNeedCut = false → stream.lsnAllocator.isNeedCut = false) :
    StreamInv { stream with lsnAllocator := allocator } view := by
  refine ⟨hinv.size, hclock, ?_, ?_, ?_, hinv.pre_slide, ?_, hinv.start_le, hinv.available⟩
  · rw [hlast]
    exact hinv.last_nonneg
  · rw [hlast]
    exact hinv.begin_le
  · rw [hlast]
    exact hinv.beyond
  · intro hopen
    rw [hlast]
    exact hinv.open_task (hcut hopen)

/-- `try_freeze` always answers with the last log and leaves the allocator cut. -/
theorem Healthy.tryFreeze (h : Healthy held stream) : stream.lsnAllocator.tryFreeze =
        (⟨.success, stream.lsnAllocator.lsn, stream.lsnAllocator.lastLogId⟩,
          stream.lsnAllocator.cut) ∧
      Sound stream.lsnAllocator.cut held
        { stream with lsnAllocator := stream.lsnAllocator.cut } := by
  obtain ⟨view, hview, hinv, -⟩ := h
  obtain ⟨clock, hshows⟩ := hinv.clock
  constructor
  · unfold LSNAllocator.tryFreeze
    rw [if_neg (by simp [hshows.is_inited])]
  · refine ⟨view, hview, hinv.setAllocator ⟨clock, ?_⟩ rfl (fun hcut => ?_), rfl⟩
    · exact { hshows with }
    · exact absurd hcut (by simp [cut, isNeedCut])

end

/-! Freezing and flushing. -/

section

variable {stream : LogSlidingWindow} {held : Nat → Nat} (hashes : Checksums)

section

variable (h : Healthy held stream)

include h

theorem feedbackFreezeLastLog_healthy (answers : List ObRet) :
    Healthy held (stream.feedbackFreezeLastLog hashes answers).2 := by
  obtain ⟨hfreeze, hcut⟩ := h.tryFreeze
  unfold feedbackFreezeLastLog
  split
  · exact h
  rw [hfreeze]
  dsimp only
  split
  · exact hcut.healthy
  have hfrozen := tryFreezeLastLogTask_sound hcut rfl stream.lsnAllocator.lastLogId
    stream.lsnAllocator.lsn
  split
  · rename_i frozen heq
    rw [heq] at hfrozen
    exact (handleCommittedLog_sound hashes
      (handleNextSubmitLog_sound hashes hfrozen answers)).healthy
  · rename_i heq
    rw [heq] at hfrozen
    exact hfrozen.healthy

theorem tryFeedbackFreezeLogTask_healthy (expectedLogId : Int) (answers : List ObRet) :
    Healthy held (stream.tryFeedbackFreezeLogTask hashes expectedLogId answers).2 := by
  refine withLogTask_healthy h ?_
  intro state held' hstate
  dsimp only
  split
  · exact feedbackFreezeLastLog_healthy hashes hstate answers
  · exact hstate

theorem checkAndSwitchFreezeMode_healthy (answers : List ObRet) :
    Healthy held (stream.checkAndSwitchFreezeMode hashes answers).2 := by
  have hmode : ∀ mode, Healthy held { stream with appendCnt := 0, freezeMode := mode } :=
    fun _ => h.of_same ⟨rfl, rfl, rfl, .refl _⟩ rfl
  unfold checkAndSwitchFreezeMode
  split
  · split
    · exact hmode .period
    · exact hmode stream.freezeMode
  · split
    · exact feedbackFreezeLastLog_healthy hashes (hmode .feedback) answers
    · exact hmode stream.freezeMode

theorem periodFreezeLastLog_healthy (answers : List ObRet) :
    Healthy held (stream.periodFreezeLastLog hashes answers).2 := by
  obtain ⟨hfreeze, hcut⟩ := h.tryFreeze
  have hfrozen := tryFreezeLastLogTask_sound hcut rfl stream.lsnAllocator.lastLogId
    stream.lsnAllocator.lsn
  have hrest : ∀ out : LogSlidingWindow, Healthy held out →
      Healthy held ((if out.lastSubmitLogId < out.getMaxLogId then
        (out.handleNextSubmitLog hashes answers).2 else out).handleCommittedLog hashes).2 := by
    intro out hout
    split
    · exact (handleCommittedLog_sound hashes
        (handleNextSubmitLog_sound hashes hout answers)).healthy
    · exact (handleCommittedLog_sound hashes hout).healthy
  unfold periodFreezeLastLog
  dsimp only
  apply hrest
  split
  · exact h
  rw [hfreeze]
  dsimp only
  split
  · exact hcut.healthy
  · exact hfrozen.healthy

end

theorem incUpdateMaxFlushedLogInfo_same (stream : LogSlidingWindow) (lsn endLsn : Nat) :
    SameFrame stream (stream.incUpdateMaxFlushedLogInfo lsn endLsn) ∧
      (stream.incUpdateMaxFlushedLogInfo lsn endLsn).sw = stream.sw := by
  unfold incUpdateMaxFlushedLogInfo
  split
  · exact ⟨.refl _, rfl⟩
  split <;> exact ⟨⟨rfl, rfl, rfl, .refl _⟩, rfl⟩

theorem tryAdvanceCommittedLsn_same (stream : LogSlidingWindow) (endLsn : Nat) :
    SameFrame stream (stream.tryAdvanceCommittedLsn endLsn) ∧
      (stream.tryAdvanceCommittedLsn endLsn).sw = stream.sw := by
  unfold tryAdvanceCommittedLsn
  split <;> exact ⟨⟨rfl, rfl, rfl, .refl _⟩, rfl⟩

section

variable (h : Healthy held stream)

include h

theorem afterFlushLog_healthy (ctx : FlushLogCbCtx)
    (feedback next : List ObRet) :
    Healthy held (stream.afterFlushLog hashes ctx feedback next).2 := by
  have hguarded : Healthy held
      (stream.withLogTask ctx.logId id fun held => (ObRet.success, held)).2 :=
    withLogTask_healthy h (fun _ _ hstate => hstate)
  unfold afterFlushLog
  dsimp only
  split
  · exact h
  split
  · rename_i seen hseen
    rw [hseen] at hguarded
    obtain ⟨hsame, hsw⟩ := incUpdateMaxFlushedLogInfo_same seen ctx.lsn
      (u64 (ctx.lsn + ctx.totalLen.toNat))
    have hflushed := hguarded.of_same hsame hsw
    generalize seen.incUpdateMaxFlushedLogInfo ctx.lsn
      (u64 (ctx.lsn + ctx.totalLen.toNat)) = flushed at hflushed ⊢
    have hcommitted : Healthy held
        (if flushed.isActive then flushed.genCommittedEndLsn else flushed) := by
      obtain ⟨hsame', hsw'⟩ := tryAdvanceCommittedLsn_same flushed flushed.maxFlushedEndLsn
      split
      · exact hflushed.of_same hsame' hsw'
      · exact hflushed
    generalize (if flushed.isActive = true then flushed.genCommittedEndLsn else flushed) =
      committed at hcommitted ⊢
    have hfrozen := tryFeedbackFreezeLogTask_healthy hashes hcommitted (ctx.logId + 1)
      feedback
    apply Sound.healthy
    apply handleCommittedLog_sound
    split
    · exact handleNextSubmitLog_sound hashes hfrozen next
    · exact hfrozen
  · rename_i hseen
    rw [hseen] at hguarded
    exact hguarded

theorem advanceReuseLsn_healthy (flushLogEndLsn : Nat) :
    Healthy held (stream.advanceReuseLsn flushLogEndLsn).2 := by
  obtain ⟨view, hview, hinv, -⟩ := h
  refine ⟨view, hview, ?_, rfl⟩
  unfold advanceReuseLsn LogGroupBuffer.incUpdateReuseLsn
  split
  · exact hinv.of_same ⟨rfl, rfl, rfl, .refl _⟩
  · exact { hinv with start_le := Nat.le_trans hinv.start_le (Nat.le_max_left _ _) }

theorem incUpdateScnBase_healthy (scn : Nat) :
    Healthy held (stream.incUpdateScnBase scn).2 := by
  obtain ⟨view, hview, hinv, -⟩ := h
  obtain ⟨clock, hshows⟩ := hinv.clock
  obtain ⟨clock', -, hshows'⟩ := hshows.step (.incUpdateScnBase stream.lsnAllocator scn)
  refine ⟨view, hview, hinv.setAllocator ⟨clock', hshows'⟩ ?_ ?_, rfl⟩
  · unfold LSNAllocator.incUpdateScnBase
    split
    · rfl
    split
    · rfl
    split <;> rfl
  · unfold LSNAllocator.incUpdateScnBase
    split
    · exact id
    split
    · exact id
    split
    · exact id
    · intro hcut
      exact absurd hcut (by simp [isNeedCut])

end

end

/-! Submitting a log. -/

/-- What a grant means for the log ids: the allocator stays open only behind a
new group or if it was open before. -/
structure GrantedIds (allocator : LSNAllocator) (grant : AllocGrant) (next : LSNAllocator) :
    Prop where
  log_id : grant.logId = allocator.lastLogId + grant.isNewGroupLog.toNat
  last_eq : next.lastLogId = grant.logId + grant.needGenPaddingEntry.toNat
  padded : grant.needGenPaddingEntry = true → grant.isNewGroupLog = true
  stays_open : next.isNeedCut = false → grant.isNewGroupLog = false → allocator.isNeedCut = false

section

variable {allocator next : LSNAllocator} {clock : LogClock} {args : AllocArgs}
  {updates : Nat}

theorem allocLsnScn_refused {ret : ObRet} (hshows : Shows allocator clock)
    (hroom : ScnAdmitted allocator args)
    (hcall : allocator.allocLsnScn args = some (updates, .refused ret, next)) :
    (∃ clock, Shows next clock) ∧ next.lastLogId = allocator.lastLogId ∧
      next.isNeedCut = allocator.isNeedCut := by
  obtain ⟨clock', hstep, hshows'⟩ := hshows.step (.allocLsnScn hroom hcall)
  refine ⟨⟨clock', hshows'⟩, ?_, ?_⟩
  · rw [hshows'.log_id, hshows.log_id]
    cases hstep
    exact LogClock.rebase_maxLogId _ _ _
  rcases allocLsnScn_cases hcall with
    ⟨-, -, -, rfl⟩ | ⟨-, -, -, rfl⟩ | ⟨-, -, base, hbase, honce⟩
  · rfl
  · rfl
  rcases allocOnce_cases honce with
    ⟨-, -, rfl⟩ | ⟨placement, -, ⟨-, -, rfl⟩ | ⟨-, -, hgrant, -⟩⟩
  · exact hbase.isNeedCut_eq
  · exact hbase.isNeedCut_eq
  · exact absurd hgrant (by simp)

theorem allocLsnScn_granted {grant : AllocGrant} (hshows : Shows allocator clock)
    (hroom : ScnAdmitted allocator args)
    (hcall : allocator.allocLsnScn args = some (updates, .granted grant, next)) :
    (∃ clock, Shows next clock) ∧ GrantedIds allocator grant next := by
  obtain ⟨clock', hstep, hshows'⟩ := hshows.step (.allocLsnScn hroom hcall)
  refine ⟨⟨clock', hshows'⟩, ?_⟩
  have hlast := hshows'.log_id
  have hfirst := hshows.log_id
  cases hstep with
  | granted _ hupdates hlogId hscn hpadding =>
    refine ⟨by rw [hlogId, hfirst], ?_, hpadding, ?_⟩
    · rw [hlast, hlogId]
      simp only [LogClock.advance, LogClock.rebase_maxLogId]
    rcases allocLsnScn_cases hcall with
      ⟨-, -, hgrant, -⟩ | ⟨-, -, hgrant, -⟩ | ⟨-, -, base, hbase, honce⟩
    · exact absurd hgrant (by simp)
    · exact absurd hgrant (by simp)
    rcases allocOnce_cases honce with
      ⟨-, hgrant, -⟩ | ⟨placement, hplace, ⟨-, hgrant, -⟩ | ⟨-, -, hgrant, rfl⟩⟩
    · exact absurd hgrant (by simp)
    · exact absurd hgrant (by simp)
    obtain rfl := AllocResult.granted.inj hgrant
    intro _ hold
    rw [← hbase.isNeedCut_eq]
    cases placedAs_of_place hplace with
    | append hcut | appendToEnd hcut => exact hcut
    | newGroup | newGroupToEnd => exact absurd hold (by simp [LSNAllocator.grant, placeNewGroup])
    | padded => exact absurd hold (by simp [LSNAllocator.grant, placePadded])

end

section

variable {stream : LogSlidingWindow} {held : Nat → Nat} {view : Nat → LogTask}
  {next : LSNAllocator} {grant : AllocGrant} (hashes : Checksums)

theorem StreamInv.granted (hinv : StreamInv stream view) (hclock : ∃ clock, Shows next clock)
    (hids : GrantedIds stream.lsnAllocator grant next) :
    StreamInv { stream with lsnAllocator := next } view ∧
      (grant.isNewGroupLog = true → view next.lastLogId.toNat = default) := by
  obtain ⟨hlogId, hlast, hpadded, hopen⟩ := hids
  have hnonneg := hinv.last_nonneg
  have hbegin := hinv.begin_le
  have hfresh : ∀ id : Nat, next.lastLogId < id → view id = default :=
    fun id hlt => hinv.beyond id (by omega)
  have hnew : grant.isNewGroupLog = true → stream.lsnAllocator.lastLogId + 1 ≤ next.lastLogId := by
    intro hnew
    rw [hlast, hlogId, hnew, Bool.toNat_true]
    omega
  have hnewFresh : grant.isNewGroupLog = true → view next.lastLogId.toNat = default := by
    intro hgroup
    have hle := hnew hgroup
    exact hinv.beyond _ (by omega)
  refine ⟨⟨hinv.size, hclock, ?_, ?_, hfresh, hinv.pre_slide, ?_, hinv.start_le,
    hinv.available⟩, hnewFresh⟩
  · change 0 ≤ next.lastLogId
    omega
  · change (stream.sw.beginSn : Int) ≤ next.lastLogId + 1
    omega
  intro hcut
  change (stream.sw.beginSn : Int) ≤ next.lastLogId ∧
    (view next.lastLogId.toNat).isFreezed = false
  cases hgroup : grant.isNewGroupLog with
  | true =>
    have hle := hnew hgroup
    rw [hnewFresh hgroup]
    exact ⟨by omega, rfl⟩
  | false =>
    have hnopad : grant.needGenPaddingEntry = false := by
      cases hpad : grant.needGenPaddingEntry with
      | false => rfl
      | true => exact absurd (hpadded hpad) (by simp [hgroup])
    have hsame : next.lastLogId = stream.lsnAllocator.lastLogId := by
      rw [hlast, hlogId, hgroup, hnopad]
      simp
    rw [hsame]
    exact hinv.open_task (hopen hcut hgroup)

theorem andThen_cases {first : Option ((ObRet × Bool) × LogSlidingWindow)}
    {rest : LogSlidingWindow → Option ((ObRet × Bool) × LogSlidingWindow)}
    (h : andThen first rest = some out) :
    (∃ isNeedHandle mid out', first = some ((.success, isNeedHandle), mid) ∧
      rest mid = some out' ∧ out = ((out'.1.1, isNeedHandle || out'.1.2), out'.2)) ∨
    (first = some out ∧ out.1.1 ≠ .success) := by
  match first with
  | none => simp [andThen] at h
  | some ((ret, isNeedHandle), mid) =>
    by_cases hret : ret = .success
    · subst hret
      obtain ⟨out', hrest, rfl⟩ := map_eq_some_iff.mp h
      exact .inl ⟨isNeedHandle, mid, out', rfl, hrest, rfl⟩
    have hout : some ((ret, isNeedHandle), mid) = some out := by
      cases ret <;> first | exact absurd rfl hret | exact h
    cases hout
    exact .inr ⟨rfl, hret⟩

theorem submitPadding_keeps (hview : Viewed stream.sw held view) (hkeeps : Keeps next stream view)
    (hlast : next.lastLogId = grant.logId + grant.needGenPaddingEntry.toNat)
    (hout : stream.submitPadding hashes grant = some out) :
    ∃ view', Viewed out.2.sw held view' ∧ Keeps next out.2 view' ∧
      view' next.lastLogId.toNat = view next.lastLogId.toNat := by
  unfold submitPadding at hout
  split_ifs at hout with hpad
  · rw [hpad, Bool.toNat_true] at hlast
    obtain ⟨view₁, hview₁, hkeeps₁, hagrees₁⟩ :=
      tryFreezePrevLog_keeps hview hkeeps grant.lsn (show grant.logId ≤ _ by omega)
    have hsame₁ := hagrees₁ next.lastLogId.toNat (by omega)
    rcases andThen_cases hout with
      ⟨isNeedHandle, mid, out', hfreeze, hgenerate, rfl⟩ | ⟨hfreeze, -⟩
    · rw [Option.some.injEq] at hfreeze
      rw [hfreeze] at hview₁ hkeeps₁
      obtain ⟨view₂, hview₂, hkeeps₂, hagrees₂⟩ := generateNewGroupLog_keeps hashes hview₁
        hkeeps₁ (by omega) (fun heq => absurd heq (by omega)) hgenerate
      exact ⟨view₂, hview₂, hkeeps₂, (hagrees₂ _ (by omega)).trans hsame₁⟩
    · rw [Option.some.injEq] at hfreeze
      rw [hfreeze] at hview₁ hkeeps₁
      exact ⟨view₁, hview₁, hkeeps₁, hsame₁⟩
  · cases hout
    exact ⟨view, hview, hkeeps, rfl⟩

theorem logPlace_logId (hlast : next.lastLogId = grant.logId + grant.needGenPaddingEntry.toNat) :
    (logPlace grant).2.1 = next.lastLogId := by
  rw [hlast]
  unfold logPlace
  cases grant.needGenPaddingEntry <;> simp

theorem submitBody_healthy {logData : List UInt8} (hview : Viewed stream.sw held view)
    (hkeeps : Keeps next stream view) (hlogId : (logPlace grant).2.1 = next.lastLogId)
    (hfresh : grant.isNewGroupLog = true → view next.lastLogId.toNat = default)
    (hout : stream.submitBody hashes grant logData feedback = some out) :
    Healthy held out.2 := by
  unfold submitBody at hout
  rw [hlogId] at hout
  split_ifs at hout with hnew
  · obtain ⟨view₁, hview₁, hkeeps₁, hagrees₁⟩ :=
      tryFreezePrevLog_keeps hview hkeeps (logPlace grant).1
        (Int.le_refl next.lastLogId)
    have hfresh₁ := (hagrees₁ _ (by omega)).trans (hfresh hnew)
    rcases andThen_cases hout with
      ⟨isNeedHandle, mid, out', hfreeze, hrest, rfl⟩ | ⟨hfreeze, -⟩
    · rw [Option.some.injEq] at hfreeze
      rw [hfreeze] at hview₁ hkeeps₁
      rcases andThen_cases hrest with
        ⟨isNeedHandle', mid', out'', hgenerate, hfeedback, rfl⟩ | ⟨hgenerate, -⟩
      · obtain ⟨view₂, hview₂, hkeeps₂, -⟩ := generateNewGroupLog_keeps hashes hview₁
          hkeeps₁ (Int.le_refl _) (fun _ => hfresh₁) hgenerate
        cases hfeedback
        have hgenerated : Sound next held mid' := ⟨view₂, hview₂, hkeeps₂⟩
        exact tryFeedbackFreezeLogTask_healthy hashes hgenerated.healthy _ _
      · obtain ⟨view₂, hview₂, hkeeps₂, -⟩ := generateNewGroupLog_keeps hashes hview₁
          hkeeps₁ (Int.le_refl _) (fun _ => hfresh₁) hgenerate
        exact Sound.healthy ⟨view₂, hview₂, hkeeps₂⟩
    · rw [Option.some.injEq] at hfreeze
      rw [hfreeze] at hview₁ hkeeps₁
      exact Sound.healthy ⟨view₁, hview₁, hkeeps₁⟩
  · obtain ⟨view₁, hview₁, hkeeps₁, -⟩ := appendToGroupLog_keeps hashes hview hkeeps
      (Int.le_refl _) hout
    exact Sound.healthy ⟨view₁, hview₁, hkeeps₁⟩

theorem submitGranted_healthy {logData : List UInt8} {out : SubmitOut × LogSlidingWindow}
    (hkeeps : Keeps next stream view) (hview : Viewed stream.sw held view)
    (hlast : next.lastLogId = grant.logId + grant.needGenPaddingEntry.toNat)
    (hfresh : grant.isNewGroupLog = true → view next.lastLogId.toNat = default)
    (hout : stream.submitGranted hashes grant logData feedback answers = some out) :
    Healthy held out.2 := by
  have hhere : Healthy held stream := Sound.healthy ⟨view, hview, hkeeps⟩
  unfold submitGranted at hout
  split at hout
  · simp at hout
  · split at hout
    · simp at hout
    · rename_i paddingNeedHandle padded hpadded
      obtain ⟨view', hview', hkeeps', hsame⟩ :=
        submitPadding_keeps hashes hview hkeeps hlast hpadded
      dsimp only at hout
      split at hout
      · simp at hout
      rename_i ret isNeedHandle submitted hsubmitted
      have hdone := submitBody_healthy hashes hview' hkeeps' (logPlace_logId hlast)
        (fun hnew => hsame.trans (hfresh hnew)) hsubmitted
      have hcounted : Healthy held
          { submitted with appendCnt := submitted.appendCnt + 1 } :=
        hdone.of_same ⟨rfl, rfl, rfl, .refl _⟩ rfl
      split at hout
      · cases hout
        exact (handleNextSubmitLog_sound hashes hcounted answers).healthy
      · cases hout
        exact hcounted
    · rename_i hpadded
      cases hout
      obtain ⟨view', hview', hkeeps', -⟩ :=
        submitPadding_keeps hashes hview hkeeps hlast hpadded
      exact Sound.healthy ⟨view', hview', hkeeps'⟩
  · cases hout
    exact hhere

/-- There are valid SCNs for the padding and the log of this call. -/
def ScnRoom (stream : LogSlidingWindow) (refScn : Nat) : Prop :=
  max refScn stream.lsnAllocator.lastScn + 2 ≤ obMaxScnTsNs

/-- What the checks and the allocation of `submit_log` come to. -/
theorem admission_cases {bufLen refScn : Nat} {result : AllocResult}
    (h : stream.admission bufLen refScn = some (result, next)) :
    (∃ ret, result = .refused ret ∧ next = stream.lsnAllocator) ∨
    ∃ args updates, args.baseScn = refScn ∧
      stream.lsnAllocator.allocLsnScn args = some (updates, result, next) := by
  unfold admission at h
  dsimp only at h
  split at h
  · cases h
    exact .inl ⟨_, rfl, rfl⟩
  split at h
  · cases h
    exact .inl ⟨_, rfl, rfl⟩
  · obtain ⟨⟨updates, out⟩, hcall, rfl⟩ := map_eq_some_iff.mp h
    exact .inr ⟨_, updates, rfl, hcall⟩

theorem submitLog_healthy {refScn : Nat} {out : SubmitOut × LogSlidingWindow}
    (h : Healthy held stream) (hroom : ScnRoom stream refScn)
    (hout : stream.submitLog hashes buf refScn feedback answers = some out) :
    Healthy held out.2 := by
  obtain ⟨view, hview, hinv, -⟩ := h
  obtain ⟨clock, hshows⟩ := hinv.clock
  unfold submitLog at hout
  split at hout
  · simp at hout
  · rename_i ret allocator hadmission
    cases hout
    rcases admission_cases hadmission with ⟨_, -, rfl⟩ | ⟨args, updates, hscn, hcall⟩
    · exact ⟨view, hview, hinv, rfl⟩
    have hadmits : ScnAdmitted stream.lsnAllocator args := by
      unfold ScnAdmitted
      rw [hscn]
      exact hroom
    obtain ⟨hclock, hlast, hcut⟩ := allocLsnScn_refused hshows hadmits hcall
    exact ⟨view, hview, hinv.setAllocator hclock hlast (fun hopen => hcut ▸ hopen), rfl⟩
  rename_i grant allocator hadmission
  rcases admission_cases hadmission with ⟨_, hgrant, -⟩ | ⟨args, updates, hscn, hcall⟩
  · exact absurd hgrant (by simp)
  have hadmits : ScnAdmitted stream.lsnAllocator args := by
    unfold ScnAdmitted
    rw [hscn]
    exact hroom
  obtain ⟨hclock, hids⟩ := allocLsnScn_granted hshows hadmits hcall
  obtain ⟨hinv', hfresh⟩ := hinv.granted hclock hids
  split at hout
  · have hkeeps : Keeps allocator { stream with lsnAllocator := allocator } view :=
      ⟨hinv', rfl⟩
    exact submitGranted_healthy hashes hkeeps hview hids.last_eq hfresh hout
  · cases hout
    exact ⟨view, hview, hinv', rfl⟩

end

/-! Importing a group. -/

section

variable {stream : LogSlidingWindow} {held : Nat → Nat} {view : Nat → LogTask}
  {allocator : LSNAllocator} (hashes : Checksums)

theorem Guarded.installed {logId : Int} {clock : LogClock} {next : LSNAllocator}
    (h : Guarded (Keeps allocator) stream held view logId) (task : LogTask)
    (hid : logId = allocator.lastLogId + 1) (hfrozen : task.isFreezed = true)
    (hshows : Shows next clock) (hlast : next.lastLogId = logId) (hcut : next.isNeedCut = true) :
    Healthy held { stream.setLogTask logId task with lsnAllocator := next } := by
  obtain ⟨hinv, halloc⟩ := h.holds
  have hbegin := hinv.begin_le
  have hbeyond := hinv.beyond
  rw [halloc] at hbegin hbeyond
  refine ⟨_, h.setLogTask task, ⟨hinv.size, ⟨clock, hshows⟩, ?_, ?_, ?_, ?_, ?_,
    hinv.start_le, hinv.available⟩, rfl⟩
  · change 0 ≤ next.lastLogId
    omega
  · change (stream.sw.beginSn : Int) ≤ next.lastLogId + 1
    omega
  · intro id hlt
    change next.lastLogId < id at hlt
    rw [Function.update_of_ne (by omega)]
    exact hbeyond id (by omega)
  · intro id
    by_cases heq : id = logId.toNat
    · subst heq
      rw [Function.update_self]
      exact fun _ => hfrozen
    · rw [Function.update_of_ne heq]
      exact hinv.pre_slide id
  · intro hopen
    exact absurd (hcut.symm.trans hopen) (by decide)

theorem installImportedGroup_healthy {currEndLsn : Nat} {body : List UInt8}
    {header : LogGroupEntryHeader} {groupLogChecksum : BitVec 64} {out : ObRet × LogSlidingWindow}
    (hguard : Guarded (Keeps allocator) stream held view header.logId)
    (hid : header.logId = allocator.lastLogId + 1) (hend : currEndLsn = allocator.lsn)
    (hsize : (logGroupEntryHeaderSize : Int) + header.groupSize = buf.length)
    (hlong : logGroupEntryHeaderSize < buf.length)
    (hlsn : allocator.lsn + buf.length < logInvalidLsnVal) (hscn : scnIsValid header.maxScn = true)
    (hout : stream.installImportedGroup hashes currEndLsn buf body header groupLogChecksum
      answers = some out) :
    Healthy held out.2 := by
  have hhere := hguard.sound
  have hfill := stream.groupBuffer.fill_marks currEndLsn (bytesAt buf) buf.length
  obtain ⟨hinv, halloc⟩ := hguard.holds
  obtain ⟨clock, hshows⟩ := hinv.clock
  have hnonneg := hinv.last_nonneg
  rw [halloc] at hshows hnonneg
  unfold installImportedGroup at hout
  dsimp only at hout
  split at hout
  · cases hout
    exact hhere.healthy
  split at hout
  · cases hout
    exact hhere.healthy
  split at hout
  · simp at hout
  split at hout
  · rename_i groupBuffer hfilled
    rw [hfilled] at hfill
    have hframe := sameFrame_setBuffer stream hfill
    split at hout
    · rename_i installed _
      have hendLsn : u64 (currEndLsn + logGroupEntryHeaderSize + header.groupSize.toNat) =
          allocator.lsn + buf.length := by
        rw [hend, u64_eq_of_lt]
        · omega
        · have hbound : logInvalidLsnVal < uint64Modulus := by decide
          omega
      obtain ⟨hret, hnext, hcut, -⟩ := hshows.incUpdateLastLogInfo hid hnonneg
        (Nat.le_add_right _ buf.length) hlsn hscn
      let done := ((installed.setGroupLogChecksum groupLogChecksum).setSubmitLogExist.2).setFreezed
      have hadvanced := (hguard.of_same hframe rfl).installed done hid rfl hnext
        hnext.log_id hcut
      have hupdate : ({ stream with groupBuffer := groupBuffer }.setLogTask header.logId
            done).tryUpdateMaxLsn currEndLsn header =
          (.success, { { stream with groupBuffer := groupBuffer }.setLogTask header.logId
            done with lsnAllocator := (allocator.incUpdateLastLogInfo
              (allocator.lsn + buf.length) header.logId header.maxScn).2 }) := by
        unfold tryUpdateMaxLsn
        rw [hendLsn]
        change ((stream.lsnAllocator.incUpdateLastLogInfo _ _ _).1, _) = _
        rw [halloc, hret]
        rfl
      rw [hupdate] at hout
      cases hout
      exact (handleNextSubmitLog_sound hashes hadvanced answers).healthy
    · cases hout
      exact (hhere.of_same hframe rfl).healthy
  · rename_i hfilled
    rw [hfilled] at hfill
    cases hout
    exact (hhere.of_same (sameFrame_setBuffer stream hfill) rfl).healthy

theorem submitImportedGroup_healthy
    {sourceLsn sourceScn : Nat} {out : ObRet × LogSlidingWindow} (h : Healthy held stream)
    (hlsn : LsnInRange stream.lsnAllocator.lsn)
    (hout : stream.submitImportedGroup hashes sourceLsn sourceScn buf answers = some out) :
    Healthy held out.2 := by
  obtain ⟨view, hview, hkeeps⟩ := h
  obtain ⟨clock, hshows⟩ := hkeeps.1.clock
  have hhere : Healthy held stream := ⟨view, hview, hkeeps⟩
  unfold submitImportedGroup at hout
  split_ifs at hout with hargs
  · cases hout
    exact hhere
  simp only [not_or, not_le, not_lt, Bool.not_eq_false] at hargs
  obtain ⟨-, hscn, hlong, hshort⟩ := hargs
  split at hout
  · cases hout
    exact hhere
  rename_i header body _
  split at hout
  · cases hout
    exact hhere
  rename_i hsize
  split at hout
  · cases hout
    exact hhere
  dsimp only at hout
  split at hout
  · cases hout
    exact hhere
  split at hout
  · cases hout
    exact hhere
  rename_i hmaxScn
  split at hout
  · cases hout
    exact hhere
  rename_i hlogId
  have hid : header.logId = stream.lsnAllocator.lastLogId + 1 := by
    rw [not_not] at hlogId
    rw [hlogId]
    unfold getMaxLogId LSNAllocator.getMaxLogId
    rw [if_pos hshows.is_inited]
  have hroom : stream.lsnAllocator.lsn + buf.length < logInvalidLsnVal := by
    obtain ⟨-, hlt⟩ := hlsn.add_block_lt
    have hblock : maxLogBufferSize + 1 < palfBlockSize := by decide
    unfold logInvalidLsnVal
    omega
  rw [not_not] at hsize hmaxScn
  split at hout
  · cases hout
    exact hhere
  split at hout
  · simp at hout
  · have hrule : ∃ view', Viewed out.2.sw held view' ∧ StreamInv out.2 view' := by
      refine withLogTaskWait_rule (P := Keeps stream.lsnAllocator) (Q := fun _ => StreamInv)
        (keeps_guardClosed _) (fun _ => streamInv_guardClosed) hview hkeeps
        (fun _ _ => hkeeps.1) ?_ hout
      intro state held' out' hguard hbody
      obtain ⟨view', hview', hinv', -⟩ := installImportedGroup_healthy hashes hguard hid rfl
        hsize hlong hroom (hmaxScn ▸ hscn) hbody
      exact ⟨view', hview', hinv'⟩
    obtain ⟨view', hview', hinv'⟩ := hrule
    exact ⟨view', hview', hinv', rfl⟩
  · cases hout
    exact hhere

end

/-! Runs. -/

/-- The calls of the stream's users, of the freezing thread and of the engine.
The lists are the engine's answers. -/
inductive StreamCall
  | submitLog (buf : List UInt8) (refScn : Nat) (feedback next : List ObRet)
  | submitImportedGroup (sourceLsn sourceScn : Nat) (buf : List UInt8)
      (answers : List ObRet)
  | afterFlushLog (ctx : FlushLogCbCtx) (feedback next : List ObRet)
  | advanceReuseLsn (flushLogEndLsn : Nat)
  | periodFreezeLastLog (answers : List ObRet)
  | checkAndSwitchFreezeMode (answers : List ObRet)
  | tryHandleNextSubmitLog (answers : List ObRet)
  | tryAdvanceCommittedEndLsn (endLsn : Nat)
  | incUpdateScnBase (scn : Nat)
  deriving Repr, DecidableEq

/-- The stream after a call; `none` is a call that waits for another one. -/
def call (stream : LogSlidingWindow) (hashes : Checksums) :
    StreamCall → Option LogSlidingWindow
  | .submitLog buf refScn feedback next =>
    (stream.submitLog hashes buf refScn feedback next).map Prod.snd
  | .submitImportedGroup sourceLsn sourceScn buf answers =>
    (stream.submitImportedGroup hashes sourceLsn sourceScn buf answers).map Prod.snd
  | .afterFlushLog ctx feedback next =>
    some (stream.afterFlushLog hashes ctx feedback next).2
  | .advanceReuseLsn flushLogEndLsn => some (stream.advanceReuseLsn flushLogEndLsn).2
  | .periodFreezeLastLog answers => some (stream.periodFreezeLastLog hashes answers).2
  | .checkAndSwitchFreezeMode answers =>
    some (stream.checkAndSwitchFreezeMode hashes answers).2
  | .tryHandleNextSubmitLog answers => some (stream.handleNextSubmitLog hashes answers).2
  | .tryAdvanceCommittedEndLsn endLsn => some (stream.tryAdvanceCommittedLsn endLsn)
  | .incUpdateScnBase scn => some (stream.incUpdateScnBase scn).2

/-- The numbers of the call do not run out: SCNs for a submitted log, LSNs for
an imported group. -/
def CallAdmitted (stream : LogSlidingWindow) : StreamCall → Prop
  | .submitLog _ refScn _ _ => ScnRoom stream refScn
  | .submitImportedGroup .. => LsnInRange stream.lsnAllocator.lsn
  | _ => True

/-- One call of a run. -/
structure StreamStep (hashes : Checksums) (stream : LogSlidingWindow) (event : StreamCall)
    (next : LogSlidingWindow) : Prop where
  admitted : CallAdmitted stream event
  called : stream.call hashes event = some next

theorem StreamStep.healthy {hashes : Checksums} {stream next : LogSlidingWindow}
    {event : StreamCall} {held : Nat → Nat} (hstep : StreamStep hashes stream event next)
    (h : Healthy held stream) : Healthy held next := by
  obtain ⟨hadmitted, hcalled⟩ := hstep
  cases event with
  | submitLog =>
    obtain ⟨out, hout, rfl⟩ := map_eq_some_iff.mp hcalled
    exact submitLog_healthy hashes h hadmitted hout
  | submitImportedGroup =>
    obtain ⟨out, hout, rfl⟩ := map_eq_some_iff.mp hcalled
    exact submitImportedGroup_healthy hashes h hadmitted hout
  | afterFlushLog ctx feedback answers =>
    cases hcalled
    exact afterFlushLog_healthy hashes h ctx feedback answers
  | advanceReuseLsn flushLogEndLsn =>
    cases hcalled
    exact advanceReuseLsn_healthy h flushLogEndLsn
  | periodFreezeLastLog answers =>
    cases hcalled
    exact periodFreezeLastLog_healthy hashes h answers
  | checkAndSwitchFreezeMode answers =>
    cases hcalled
    exact checkAndSwitchFreezeMode_healthy hashes h answers
  | tryHandleNextSubmitLog answers =>
    cases hcalled
    exact (handleNextSubmitLog_sound hashes h answers).healthy
  | tryAdvanceCommittedEndLsn endLsn =>
    cases hcalled
    obtain ⟨hsame, hsw⟩ := tryAdvanceCommittedLsn_same stream endLsn
    exact h.of_same hsame hsw
  | incUpdateScnBase scn =>
    cases hcalled
    exact incUpdateScnBase_healthy h scn

/-- A stream fresh from `init`. -/
structure Started (info : PalfBaseInfo) (stream : LogSlidingWindow) : Prop where
  lsn_lt : info.currLsn < uint64Modulus
  inited : ∃ isActive, init info isActive = some stream

theorem Started.parts {stream : LogSlidingWindow} (hstart : Started info stream) :
    FixedSlidingWindow.init (info.prevLogInfo.logId + 1) palfSlidingWindowSize = some stream.sw ∧
      LSNAllocator.Started info.prevLogInfo.logId info.prevLogInfo.scn info.currLsn
        stream.lsnAllocator ∧
      LogGroupBuffer.init info.currLsn = some stream.groupBuffer ∧
      stream.committedEndLsn = info.currLsn := by
  obtain ⟨hlt, isActive, hinit⟩ := hstart
  unfold init at hinit
  split at hinit
  · rename_i sw lsnAllocator groupBuffer hsw halloc hbuffer
    cases hinit
    exact ⟨hsw, ⟨hlt, halloc⟩, hbuffer, rfl⟩
  · simp at hinit

theorem Started.healthy {stream : LogSlidingWindow} (hstart : Started info stream) :
    Healthy (fun _ => 0) stream := by
  obtain ⟨hsw, halloc, hbuffer, -⟩ := hstart.parts
  obtain ⟨hstartId, hbegin, hsize⟩ := FixedSlidingWindow.init_eq hsw
  have hshows := Shows.start halloc
  have hlast : stream.lsnAllocator.lastLogId = info.prevLogInfo.logId := hshows.log_id
  have hlogId : 0 ≤ info.prevLogInfo.logId := by
    have hne := halloc.logId_ne
    unfold obInvalidLogId at hne
    omega
  have hcut : stream.lsnAllocator.isNeedCut = true := by
    obtain ⟨-, -, heq⟩ := halloc.eq
    rw [heq]
    rfl
  unfold LogGroupBuffer.init at hbuffer
  split at hbuffer
  · simp at hbuffer
  have hbuffer := (Option.some.inj hbuffer).symm
  refine ⟨_, Viewed.init hsw, ⟨hsize, ⟨_, hshows⟩, by omega, by omega, fun _ _ => rfl,
    ?_, ?_, ?_, ?_⟩, rfl⟩
  · intro id hpre
    exact absurd hpre (by decide)
  · rw [hcut]
    exact fun hopen => absurd hopen (by decide)
  · rw [hbuffer]
  · rw [hbuffer]

theorem StreamRun.healthy {hashes : Checksums} {start stream : LogSlidingWindow}
    {events : List StreamCall} (hstart : Started info start)
    (hrun : Execution (StreamStep hashes) start events stream) :
    Healthy (fun _ => 0) stream :=
  hrun.invariant (P := Healthy fun _ => 0) hstart.healthy
    (fun _ _ _ h hstep => hstep.healthy h)

end SeekDB.LogSlidingWindow
