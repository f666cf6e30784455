/-
An idle log stream: everything has been flushed, committed and slid out.

The group buffer is empty then, and still a log can be refused: near the end of
a block the padding in front of it counts as well, and both together may be
larger than the buffer.
-/
import SeekDB.LogStreamRun
import SeekDB.LsnAllocatorLayout

namespace SeekDB.LogSlidingWindow

open LSNAllocator

/-- Every allocated log has been flushed, committed and slid out. -/
structure Idle (stream : LogSlidingWindow) : Prop where
  reuse : stream.groupBuffer.reuseLsn = stream.lsnAllocator.lsn
  committed : stream.committedEndLsn = stream.lsnAllocator.lsn
  empty : stream.getStartId = stream.getMaxLogId + 1

/-- An empty group buffer has room for a new group of one entry of `size` bytes
at this offset of a block, with the padding that has to precede it. -/
def FitsIdleBuffer (offset size : Nat) : Prop :=
  offset + newGroupLogSize size + clogFileTailPaddingTrigger ≤ palfBlockSize ∨
    offset + newGroupLogSize size = palfBlockSize ∨
    palfBlockSize - offset + newGroupLogSize size ≤ defaultGroupBufferSize

instance (offset size : Nat) : Decidable (FitsIdleBuffer offset size) :=
  inferInstanceAs (Decidable (_ ∨ _ ∨ _))

theorem grant_stop_le_iff {base : LSNAllocator} {size : Nat} {placement : Placement}
    (baseScn : Nat) (hcut : base.isNeedCut = true)
    (hplaced : PlacedAs base.isNeedCut (lsn2Offset base.lsn) size placement)
    (hlimit : size ≤ logEntryHeaderSize + maxLogBodySize) :
    (base.grant baseScn placement).stop size ≤ base.lsn + defaultGroupBufferSize ↔
      FitsIdleBuffer (lsn2Offset base.lsn) size := by
  have hbuffer : logGroupEntryHeaderSize + (logEntryHeaderSize + maxLogBodySize) ≤
      defaultGroupBufferSize := by decide
  unfold FitsIdleBuffer
  cases hplaced with
  | newGroup hopen hfit =>
    simp only [AllocGrant.stop, LSNAllocator.grant, placeNewGroup, if_true]
    constructor
    · exact fun _ => .inl hfit
    · omega
  | newGroupToEnd hopen hend =>
    simp only [AllocGrant.stop, LSNAllocator.grant, placeNewGroup, if_true]
    constructor
    · exact fun _ => .inr (.inl hend)
    · omega
  | append hopen | appendToEnd hopen => exact absurd (hcut.symm.trans hopen) (by decide)
  | padded hfull hne =>
    have hend := hne hcut
    simp only [AllocGrant.stop, LSNAllocator.grant, placePadded, if_true]
    unfold newGroupLogSize at *
    omega

/-- The allocation of an idle stream ends, and it ends with `OB_EAGAIN` exactly
if the padding and the log do not fit the buffer. -/
theorem allocLsnScn_idle {allocator : LSNAllocator} {clock : LogClock} {args : AllocArgs}
    (hshows : Shows allocator clock) (hroom : ScnAdmitted allocator args)
    (hcut : allocator.isNeedCut = true) (hlsn : LsnInRange allocator.lsn)
    (hargs : allocArgsInvalid args = false)
    (hlimit : args.size.toNat ≤ logEntryHeaderSize + maxLogBodySize)
    (hids : allocator.lastLogId + 2 ≤ args.logIdUpperBound)
    (hbound : args.lsnUpperBound = allocator.lsn + defaultGroupBufferSize) :
    ∃ updates result next,
      allocator.allocLsnScn args = some (updates, result, next) ∧
      (FitsIdleBuffer (lsn2Offset allocator.lsn) args.size.toNat →
        ∃ grant, result = .granted grant ∧ grant.ret = .success) ∧
      (¬ FitsIdleBuffer (lsn2Offset allocator.lsn) args.size.toNat →
        result = .refused .eagain) := by
  obtain ⟨⟨updates, result, next⟩, -, hloop⟩ := hshows.allocLoop_ends hroom 0
  have hcall : allocator.allocLsnScn args = some (updates, result, next) := by
    unfold allocLsnScn
    rw [if_neg (by simp [hshows.is_inited]), if_neg (by simp [hargs])]
    exact hloop
  refine ⟨updates, result, next, hcall, ?_⟩
  obtain ⟨base, hbase, honce⟩ := allocLoop_two_cases hloop
  dsimp only at hbase
  unfold ScnAdmitted at hroom
  rw [hshows.lastScn_eq] at hroom
  obtain ⟨-, hshows', hroom'⟩ := hshows.rebased hroom hbase
  have hcut' : base.isNeedCut = true := hbase.isNeedCut_eq.trans hcut
  rcases allocOnce_cases honce with
    ⟨hnone, -⟩ | ⟨placement, hplace, hrest⟩
  · rw [place_eq_none_iff, hcut'] at hnone
    exact absurd hnone.1 (by decide)
  have hplaced := placedAs_of_place hplace
  have hids' : base.lastLogId + placement.logIds ≤ args.logIdUpperBound := by
    have hnew : placement.isNewGroupLog.toNat ≤ 1 := Bool.toNat_le _
    have hpad : placement.needGenPaddingEntry.toNat ≤ 1 := Bool.toNat_le _
    rw [hbase.lastLogId_eq]
    unfold Placement.logIds
    omega
  have hend : (base.nextMeta args.baseScn placement).lsnVal.toNat =
      (base.grant args.baseScn placement).stop args.size.toNat :=
    nextMeta_lsnVal hplaced hlimit (by rw [hbase.lsn_eq]; exact hlsn)
  have hfits := grant_stop_le_iff args.baseScn hcut' hplaced hlimit
  rw [hend, hbound] at hrest
  rw [hbase.lsn_eq] at hfits
  rcases hrest with ⟨hover, rfl, -⟩ | ⟨-, hunder, rfl, -⟩
  · exact ⟨fun hfit => absurd (hfits.mpr hfit) (by omega), fun _ => rfl⟩
  refine ⟨fun _ => ⟨_, rfl, ?_⟩, fun hnot => absurd (hfits.mp hunder) hnot⟩
  have hscn : (base.grant args.baseScn placement).scnVal =
      (clock.rebase args.baseScn updates).nextScn args.baseScn :=
    (hshows'.nextMeta hroom' hbase.1).2
  apply AllocGrant.ret_eq_success
  rw [hscn]
  unfold LogClock.nextScn
  omega

section

variable {stream : LogSlidingWindow}

/-- The checks in front of the allocation let every log of an idle stream pass. -/
theorem Idle.admission_eq {bufLen refScn : Nat} (hidle : Idle stream)
    (h : Healthy (fun _ => 0) stream) (hpos : 0 < bufLen) (hmax : bufLen ≤ maxLogBodySize)
    (hscn : scnIsValid refScn = true) (hlsn : LsnInRange stream.lsnAllocator.lsn) :
    stream.admission bufLen refScn = (stream.lsnAllocator.allocLsnScn
        ⟨refScn, logEntryHeaderSize + bufLen, stream.getStartId + palfMaxSubmitLogCount - 1,
          stream.lsnAllocator.lsn + defaultGroupBufferSize⟩).map Prod.snd := by
  obtain ⟨view, hview, hinv, -⟩ := h
  obtain ⟨clock, hshows⟩ := hinv.clock
  obtain ⟨-, hroom⟩ := hlsn.add_block_lt
  have hblock : logEntryHeaderSize + maxLogBodySize ≤ defaultGroupBufferSize ∧
      defaultGroupBufferSize < palfBlockSize := by decide
  have hvalid : lsnIsValid stream.lsnAllocator.lsn = true := by
    unfold lsnIsValid logInvalidLsnVal
    exact bne_iff_ne.mpr (by omega)
  have hbound : stream.lsnUpperBound = stream.lsnAllocator.lsn + defaultGroupBufferSize := by
    unfold lsnUpperBound
    rw [hidle.committed, hidle.reuse, hinv.available, Nat.min_self, u64_eq_of_lt (by omega)]
  have hnew : stream.canSubmitNewLog (logEntryHeaderSize + bufLen) = true := by
    have hstart := hinv.start_le
    rw [hidle.reuse] at hstart
    unfold canSubmitNewLog getCurrEndLsn LogGroupBuffer.canHandleNewLog
    rw [if_pos hshows.is_inited]
    dsimp only
    rw [hidle.committed, hidle.reuse, hinv.available, hvalid, Nat.min_self,
      u64_eq_of_lt (by omega), u64_eq_of_lt (by omega), if_neg (by simp; omega),
      if_neg (by omega), if_neg (by omega)]
  have hlarger : stream.canSubmitLargerLog (stream.getMaxLogId + 1) = true := by
    have hend := hview.end_eq (fun _ => rfl)
    have hsize := hinv.size
    have hempty := hidle.empty
    have hcounts : palfSlidingWindowSize = 2048 ∧ palfMaxSubmitLogCount = 1024 := ⟨rfl, rfl⟩
    unfold getStartId at hempty
    unfold canSubmitLargerLog getStartId
    simp only [Bool.not_eq_true', Bool.or_eq_false_iff, decide_eq_false_iff_not]
    omega
  unfold admission
  rw [if_neg (by simp [hscn]; omega), if_neg (by simp [hnew, hlarger]), hbound]

end

/-- An idle stream takes a log of an accepted size exactly if the log and the
padding that has to precede it fit the group buffer, and answers `OB_EAGAIN`
otherwise. -/
theorem stream_run_idle_admission {hashes : Checksums} {info : PalfBaseInfo}
    {start stream : LogSlidingWindow} {events : List StreamCall} {bufLen refScn : Nat}
    (hstart : Started info start) (hrun : Execution (StreamStep hashes) start events stream)
    (hidle : Idle stream) (hpos : 0 < bufLen) (hmax : bufLen ≤ maxLogBodySize)
    (hscn : ScnRoom stream refScn) (hlsn : LsnInRange stream.lsnAllocator.lsn) :
    ((∃ grant next, stream.admission bufLen refScn = some (.granted grant, next) ∧
        grant.ret = .success) ↔
      FitsIdleBuffer (lsn2Offset stream.lsnAllocator.lsn) (logEntryHeaderSize + bufLen)) ∧
    (¬ FitsIdleBuffer (lsn2Offset stream.lsnAllocator.lsn) (logEntryHeaderSize + bufLen) →
      ∃ next, stream.admission bufLen refScn = some (.refused .eagain, next)) := by
  have h := StreamRun.healthy hstart hrun
  obtain ⟨view, -, hinv, -⟩ := h
  obtain ⟨clock, hshows⟩ := hinv.clock
  have hcut : stream.lsnAllocator.isNeedCut = true := by
    cases hopen : stream.lsnAllocator.isNeedCut with
    | true => rfl
    | false =>
      have hbegin := (hinv.open_task hopen).1
      have hempty := hidle.empty
      unfold getStartId getMaxLogId at hempty
      rw [hshows.getMaxLogId_eq, ← hshows.log_id] at hempty
      omega
  have hvalid : scnIsValid refScn = true := by
    unfold ScnRoom obMaxScnTsNs at hscn
    exact decide_eq_true (by omega)
  have hlsnRoom := hlsn.add_block_lt.2
  have hblock : defaultGroupBufferSize + 1 < palfBlockSize := by decide
  have hcount : palfMaxSubmitLogCount = 1024 := rfl
  have hids : stream.lsnAllocator.lastLogId + 2 ≤
      stream.getStartId + palfMaxSubmitLogCount - 1 := by
    rw [hidle.empty]
    unfold getMaxLogId
    rw [hshows.getMaxLogId_eq, ← hshows.log_id]
    omega
  let args : AllocArgs :=
    ⟨refScn, logEntryHeaderSize + bufLen, stream.getStartId + palfMaxSubmitLogCount - 1,
      stream.lsnAllocator.lsn + defaultGroupBufferSize⟩
  have hadmits : ScnAdmitted stream.lsnAllocator args := hscn
  have hargs : allocArgsInvalid args = false := by
    have hnonneg := hinv.last_nonneg
    unfold allocArgsInvalid lsnIsValid logInvalidLsnVal
    dsimp only [args]
    simp only [hvalid, Bool.not_true, Bool.or_false, Bool.or_eq_false_iff,
      decide_eq_false_iff_not, Bool.not_eq_false', bne_iff_ne]
    omega
  have hsize : args.size.toNat = logEntryHeaderSize + bufLen := by
    change (logEntryHeaderSize + bufLen : Int).toNat = _
    omega
  obtain ⟨updates, result, next, hcall, hfits, hrefused⟩ :=
    allocLsnScn_idle hshows hadmits hcut hlsn hargs (by omega) hids rfl
  rw [hidle.admission_eq (StreamRun.healthy hstart hrun) hpos hmax hvalid hlsn, hcall]
  refine ⟨⟨?_, ?_⟩, ?_⟩
  · rintro ⟨grant, next', hgranted, -⟩
    by_contra hnot
    rw [hrefused hnot] at hgranted
    simp at hgranted
  · intro hfit
    obtain ⟨grant, rfl, hret⟩ := hfits hfit
    exact ⟨grant, next, rfl, hret⟩
  · intro hnot
    rw [hrefused hnot]
    exact ⟨next, rfl⟩

/-- The base information of a stream whose last group ends where eighteen logs
of the largest size end in the first block. -/
def eighteenLargestLogs : PalfBaseInfo :=
  ⟨⟨18, 62391632, 18, 0⟩, 66061728⟩

/-- A log of one byte is submitted, frozen, flushed and released. -/
def flushedCalls : List StreamCall :=
  [.submitLog [7] 19 [.success] [.success], .periodFreezeLastLog [.success],
    .afterFlushLog ⟨19, 19, 66061728, 81⟩ [.success] [.success], .advanceReuseLsn 66061809]

/-- A stream that is idle after a log takes another small one. -/
theorem stream_run_idle_admission_flushed : ∃ hashes start events stream,
      Started eighteenLargestLogs start ∧ events ≠ [] ∧
      Execution (StreamStep hashes) start events stream ∧ Idle stream ∧
      ∃ grant next, stream.admission 1 1 = some (.granted grant, next) ∧ grant.ret = .success := by
  let hashes : Checksums := ⟨fun _ _ => 0, fun _ => 0, fun _ => 0, fun _ => 0⟩
  have hview : (init eighteenLargestLogs true).any (fun start =>
      (flushedCalls.foldlM (call · hashes) start).any fun stream => decide
        (start.lsnAllocator.lastScn = 18 ∧ stream.lsnAllocator.lastScn = 19 ∧
          stream.groupBuffer.reuseLsn = 66061809 ∧ stream.lsnAllocator.lsn = 66061809 ∧
          stream.committedEndLsn = 66061809 ∧ stream.getStartId = 20 ∧
          stream.getMaxLogId = 19)) = true := by decide +kernel
  obtain ⟨start, hinit, hview⟩ := (Option.any_eq_true _ _).mp hview
  obtain ⟨last, hcalls, hview⟩ := (Option.any_eq_true _ _).mp hview
  obtain ⟨hfirst, hscn, hreuse, hlsn, hcommitted, hstartId, hmaxId⟩ := of_decide_eq_true hview
  simp only [flushedCalls, List.foldlM_cons, List.foldlM_nil, Option.bind_eq_bind,
    Option.bind_eq_some_iff, Option.pure_def, Option.some.injEq] at hcalls
  obtain ⟨submitted, hsubmit, frozen, hfreeze, flushed, hflush, stream, hrelease, rfl⟩ := hcalls
  have hstart : Started eighteenLargestLogs start := ⟨by decide, true, hinit⟩
  have hadmitted : ScnRoom start 19 := by
    unfold ScnRoom
    rw [hfirst]
    decide
  have hrun : Execution (StreamStep hashes) start _ stream :=
    (((Execution.refl.snoc ⟨by exact hadmitted, hsubmit⟩).snoc ⟨by trivial, hfreeze⟩).snoc
      ⟨by trivial, hflush⟩).snoc ⟨by trivial, hrelease⟩
  have hidle : Idle stream :=
    ⟨hreuse.trans hlsn.symm, hcommitted.trans hlsn.symm, by rw [hstartId, hmaxId]; rfl⟩
  have hroom : ScnRoom stream 1 := by
    unfold ScnRoom
    rw [hscn]
    decide
  refine ⟨hashes, start, _, stream, hstart, by simp, hrun, hidle,
    ((stream_run_idle_admission hstart hrun hidle (by decide) (by decide) hroom ?_).1).mpr ?_⟩
  · rw [hlsn]
    decide
  · rw [hlsn]
    decide

/-- The same stream refuses a log of the largest size: 1043040 bytes are left in
the block, and padding and log need more than the 4MB of the buffer. -/
theorem stream_run_idle_refused : ∃ start, Started eighteenLargestLogs start ∧ Idle start ∧
      start.admission maxLogBodySize 19 = some (.refused .eagain, start.lsnAllocator) :=
  ⟨_, ⟨by decide, true, rfl⟩, ⟨rfl, rfl, rfl⟩, by decide⟩

end SeekDB.LogSlidingWindow
