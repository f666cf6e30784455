/-
The log sequence number allocator (lsn_allocator.h, lsn_allocator.cpp).

One 128-bit word packs the end of the log, the distances of the last log id and
SCN from two bases, and whether the next log has to open a new group.  Every
operation is one atomic update of that word, so an operation is a function from
allocator to allocator.  Log ids are exact integers: signed overflow has no
defined meaning in the source.
-/
import SeekDB.PalfDefine
import SeekDB.Execution

namespace SeekDB

open Option

/-- `LOG_ID_DELTA_UPPER_BOUND`. -/
def logIdDeltaUpperBound : Nat := 2 ^ 28 - 1000

/-- `LOG_TS_DELTA_UPPER_BOUND`. -/
def logTsDeltaUpperBound : Nat := 2 ^ 35 - 1000

/-- `LOG_CUT_TRIGGER`: groups are split at the 2MB boundaries of a block. -/
def logCutTrigger : Nat := 2 ^ 21

def logCutTriggerMask : Nat := 2 ^ 21 - 1

/-- `OB_INVALID_LOG_ID`. -/
def obInvalidLogId : Int := -1

/-- The packed word.  The bit fields keep the low bits of what is stored. -/
structure LSNTsMeta where
  isNeedCut : Bool
  logIdDelta : BitVec 28
  scnDelta : BitVec 35
  lsnVal : BitVec 64
  deriving Repr, DecidableEq

structure LSNAllocator where
  lsnTsMeta : LSNTsMeta
  logIdBase : Int
  scnBase : Nat
  isInited : Bool
  deriving Repr, DecidableEq

/-- Input arguments of `alloc_lsn_scn`; `size` includes the entry header. -/
structure AllocArgs where
  baseScn : Nat
  size : Int
  logIdUpperBound : Int
  lsnUpperBound : Nat
  deriving Repr, DecidableEq

/-- Output arguments of `alloc_lsn_scn` once the word has been installed. -/
structure AllocGrant where
  lsn : Nat
  logId : Int
  scnVal : Nat
  isNewGroupLog : Bool
  needGenPaddingEntry : Bool
  paddingLen : Nat
  deriving Repr, DecidableEq

/-- An allocation either leaves the word alone or installs its successor. -/
inductive AllocResult
  | refused (ret : ObRet)
  | granted (grant : AllocGrant)
  deriving Repr, DecidableEq

/-- The SCN is converted after the word has been installed, so an allocation
can fail although its log id and its bytes are gone. -/
def AllocGrant.ret (grant : AllocGrant) : ObRet :=
  match convertForLogservice grant.scnVal with
  | some _ => .success
  | none => .invalidArgument

theorem AllocGrant.ret_eq_success {grant : AllocGrant} (hscn : grant.scnVal ≤ obMaxScnTsNs) :
    grant.ret = .success := by
  unfold ret convertForLogservice
  rw [if_neg (Nat.not_lt.mpr hscn)]

namespace LSNAllocator

def lsn (allocator : LSNAllocator) : Nat := allocator.lsnTsMeta.lsnVal.toNat

/-- `log_id_base_ + log_id_delta_`. -/
def lastLogId (allocator : LSNAllocator) : Int :=
  allocator.logIdBase + allocator.lsnTsMeta.logIdDelta.toNat

/-- `scn_base_ + scn_delta_`. -/
def lastScn (allocator : LSNAllocator) : Nat :=
  u64 (allocator.scnBase + allocator.lsnTsMeta.scnDelta.toNat)

def isNeedCut (allocator : LSNAllocator) : Bool := allocator.lsnTsMeta.isNeedCut

def reset : LSNAllocator where
  lsnTsMeta := { isNeedCut := true, logIdDelta := 0, scnDelta := 0, lsnVal := 0 }
  logIdBase := obInvalidLogId
  scnBase := 0
  isInited := false

def init (allocator : LSNAllocator) (logId : Int) (scn : Nat) (startLsn : Nat) :
    ObRet × LSNAllocator :=
  if allocator.isInited then (.initTwice, allocator)
  else if logId = obInvalidLogId ∨ scnIsValid scn = false ∨
      lsnIsValid startLsn = false then (.invalidArgument, allocator)
  else (.success,
    { lsnTsMeta :=
        { isNeedCut := true, logIdDelta := 0, scnDelta := 0,
          lsnVal := BitVec.ofNat 64 startLsn }
      logIdBase := logId
      scnBase := scn
      isInited := true })

/-- Distances that no longer fit their bit fields move the bases instead; both
ways the last log becomes `(lsn, logId, scn)` unless that lies in the past. -/
def incUpdateLastLogInfo (allocator : LSNAllocator) (lsn : Nat) (logId : Int) (scn : Nat) :
    ObRet × LSNAllocator :=
  if allocator.isInited = false then (.notInit, allocator)
  else if lsnIsValid lsn = false ∨ scnIsValid scn = false ∨
      logId = obInvalidLogId then (.invalidArgument, allocator)
  else if logId < allocator.lastLogId ∨ lsn < allocator.lsn then
    (.success, allocator)
  else if (logIdDeltaUpperBound : Int) ≤ logId - allocator.logIdBase ∨
      logTsDeltaUpperBound ≤ u64Sub scn allocator.scnBase then
    (.success,
      { allocator with
        lsnTsMeta :=
          { isNeedCut := true, logIdDelta := 0, scnDelta := 0,
            lsnVal := BitVec.ofNat 64 lsn }
        logIdBase := logId
        scnBase := scn })
  else
    (.success,
      { allocator with
        lsnTsMeta :=
          { isNeedCut := true
            logIdDelta := BitVec.ofInt 28 (logId - allocator.logIdBase)
            scnDelta := BitVec.ofNat 35 (u64Sub scn allocator.scnBase)
            lsnVal := BitVec.ofNat 64 lsn } })

def incUpdateScnBase (allocator : LSNAllocator) (refScn : Nat) :
    ObRet × LSNAllocator :=
  if allocator.isInited = false then (.notInit, allocator)
  else if scnIsValid refScn = false then (.invalidArgument, allocator)
  else if refScn < allocator.lastScn then (.success, allocator)
  else (.success,
    { allocator with
      lsnTsMeta := { allocator.lsnTsMeta with scnDelta := 0, isNeedCut := true }
      scnBase := refScn })

def getMaxLogId (allocator : LSNAllocator) : Int :=
  if allocator.isInited then allocator.lastLogId else obInvalidLogId

/-- A number above the maximum leaves the default, invalid SCN. -/
def getMaxScn (allocator : LSNAllocator) : Nat :=
  if allocator.isInited then
    (convertForLogservice allocator.lastScn).getD obInvalidScnVal
  else obInvalidScnVal

def getCurrEndLsn (allocator : LSNAllocator) : ObRet × Option Nat :=
  if allocator.isInited then (.success, some allocator.lsn) else (.notInit, none)

def cut (allocator : LSNAllocator) : LSNAllocator :=
  { allocator with
    lsnTsMeta := { allocator.lsnTsMeta with isNeedCut := true } }

/-- Return code, `last_lsn` and `last_log_id` of the two freeze operations. -/
structure FreezeOut where
  ret : ObRet
  lastLsn : Nat
  lastLogId : Int
  deriving Repr, DecidableEq

def tryFreeze (allocator : LSNAllocator) : FreezeOut × LSNAllocator :=
  if allocator.isInited = false then (⟨.notInit, 0, obInvalidLogId⟩, allocator)
  else (⟨.success, allocator.lsn, allocator.lastLogId⟩, allocator.cut)

/-- Unlike `try_freeze` it reports that there was nothing to cut. -/
def tryFreezeByTime (allocator : LSNAllocator) : FreezeOut × LSNAllocator :=
  if allocator.isInited = false then (⟨.notInit, 0, obInvalidLogId⟩, allocator)
  else if allocator.isNeedCut then
    (⟨.stateNotMatch, allocator.lsn, allocator.lastLogId⟩, allocator)
  else (⟨.success, allocator.lsn, allocator.lastLogId⟩, allocator.cut)

end LSNAllocator

/-! The placement of one log in its block. -/

/-- Position of an offset inside its 2MB segment. -/
def cutOffset (offset : Nat) : Nat := offset &&& logCutTriggerMask

theorem cutOffset_eq_mod (offset : Nat) : cutOffset offset = offset % logCutTrigger :=
  Nat.and_two_pow_sub_one_eq_mod offset 21

/-- Local variables of `alloc_lsn_scn` that describe where the log goes.
`blockSwitch` says that `tmp_next_block_id` was incremented. -/
structure Placement where
  isNewGroupLog : Bool
  needGenPaddingEntry : Bool
  paddingLen : Nat
  blockSwitch : Bool
  nextBlockOffset : Nat
  isNextNeedCut : Bool
  deriving Repr, DecidableEq

def newGroupLogSize (size : Nat) : Nat := size + logGroupEntryHeaderSize

/-- A new group behind the last log. -/
def placeNewGroup (offset size : Nat) : Placement where
  isNewGroupLog := true
  needGenPaddingEntry := false
  paddingLen := 0
  blockSwitch := false
  nextBlockOffset := offset + newGroupLogSize size
  isNextNeedCut := decide (logCutTrigger ≤ cutOffset offset + newGroupLogSize size)

/-- One more entry of the last group. -/
def placeAppend (offset size : Nat) : Placement where
  isNewGroupLog := false
  needGenPaddingEntry := false
  paddingLen := 0
  blockSwitch := false
  nextBlockOffset := offset + size
  isNextNeedCut := decide (logCutTrigger ≤ cutOffset offset + size)

/-- A padding up to the block's end, and a new group in the next block. -/
def placePadded (offset size : Nat) : Placement where
  isNewGroupLog := true
  needGenPaddingEntry := true
  paddingLen := palfBlockSize - offset
  blockSwitch := true
  nextBlockOffset := newGroupLogSize size
  isNextNeedCut := decide (logCutTrigger ≤ newGroupLogSize size)

/-- The first decision: does the log join the last group?  `none` is the
`OB_ERR_UNEXPECTED` branch. -/
def placeInBlock (isNeedCut : Bool) (offset size : Nat) : Option Placement :=
  if isNeedCut then some (placeNewGroup offset size)
  else if 0 < offset ∧ cutOffset offset = 0 then none
  else if 0 < offset ∧ logCutTrigger < cutOffset offset + size then
    some (placeNewGroup offset size)
  else some (placeAppend offset size)

/-- The second decision: what happens at the end of the block. -/
def placeAtTail (offset size : Nat) (placement : Placement) : Placement :=
  if placement.nextBlockOffset < palfBlockSize then
    if palfBlockSize - placement.nextBlockOffset < clogFileTailPaddingTrigger then
      placePadded offset size
    else placement
  else if placement.nextBlockOffset = palfBlockSize then
    { placement with blockSwitch := true, nextBlockOffset := 0, isNextNeedCut := true }
  else placePadded offset size

def place (isNeedCut : Bool) (offset size : Nat) : Option Placement :=
  (placeInBlock isNeedCut offset size).map (placeAtTail offset size)

/-- How many log ids the placement uses up. -/
def Placement.logIds (placement : Placement) : Nat :=
  placement.isNewGroupLog.toNat + placement.needGenPaddingEntry.toNat

variable {next : LSNAllocator} {args : AllocArgs} {allocator : LSNAllocator}

namespace LSNAllocator

/-- `tmp_next_scn`. -/
def nextScn (allocator : LSNAllocator) (baseScn : Nat) : Nat :=
  max baseScn (u64 (allocator.lastScn + 1))

/-- Would a padding and a log overflow one of the distances? -/
def needUpdateBase (allocator : LSNAllocator) (baseScn : Nat) : Bool :=
  decide (logTsDeltaUpperBound ≤ u64Sub (u64 (allocator.nextScn baseScn + 1)) allocator.scnBase) ||
  decide (logIdDeltaUpperBound ≤ allocator.lsnTsMeta.logIdDelta.toNat + 2)

def updateBase (allocator : LSNAllocator) (baseScn : Nat) : LSNAllocator :=
  { allocator with
    lsnTsMeta := { allocator.lsnTsMeta with scnDelta := 0, logIdDelta := 0 }
    logIdBase := allocator.lastLogId
    scnBase := max baseScn allocator.lastScn }

/-- The word that holds the log end after `placement`. -/
def nextMeta (allocator : LSNAllocator) (baseScn : Nat) (placement : Placement) :
    LSNTsMeta where
  isNeedCut := placement.isNextNeedCut
  logIdDelta := BitVec.ofNat 28
    (allocator.lsnTsMeta.logIdDelta.toNat + placement.logIds)
  scnDelta := BitVec.ofNat 35
    (u64Sub (allocator.nextScn baseScn) allocator.scnBase + placement.needGenPaddingEntry.toNat)
  lsnVal := BitVec.ofNat 64
    ((lsn2Block allocator.lsn + placement.blockSwitch.toNat) * palfBlockSize +
      placement.nextBlockOffset)

def grant (allocator : LSNAllocator) (baseScn : Nat) (placement : Placement) :
    AllocGrant where
  lsn := allocator.lsn
  logId := allocator.lastLogId + placement.isNewGroupLog.toNat
  scnVal := u64 (allocator.scnBase + u64Sub (allocator.nextScn baseScn) allocator.scnBase)
  isNewGroupLog := placement.isNewGroupLog
  needGenPaddingEntry := placement.needGenPaddingEntry
  paddingLen := placement.paddingLen

/-- The body of the inner loop when the bases need no update. -/
def allocOnce (allocator : LSNAllocator) (args : AllocArgs) :
    AllocResult × LSNAllocator :=
  match place allocator.isNeedCut (lsn2Offset allocator.lsn) args.size.toNat with
  | none => (.refused .errUnexpected, allocator)
  | some placement =>
    let next := allocator.nextMeta args.baseScn placement
    if args.logIdUpperBound < allocator.lastLogId + placement.logIds ∨
        args.lsnUpperBound < next.lsnVal.toNat then
      (.refused .eagain, allocator)
    else
      (.granted (allocator.grant args.baseScn placement), { allocator with lsnTsMeta := next })

/-- The outer `do ... while (need_update_base)` loop, with the number of times
the bases were updated.  `none` says that `fuel` rounds did not suffice. -/
def allocLoop : Nat → LSNAllocator → AllocArgs →
    Option (Nat × AllocResult × LSNAllocator)
  | 0, _, _ => none
  | fuel + 1, allocator, args =>
    if allocator.needUpdateBase args.baseScn then
      (allocLoop fuel (allocator.updateBase args.baseScn) args).map
        (fun out => (out.1 + 1, out.2))
    else some (0, allocator.allocOnce args)

/-- `OB_INVALID_ARGUMENT` test of `alloc_lsn_scn`. -/
def allocArgsInvalid (args : AllocArgs) : Bool :=
  decide (args.size ≤ 0) || !scnIsValid args.baseScn ||
    decide (args.logIdUpperBound ≤ 0) || !lsnIsValid args.lsnUpperBound

/-- `alloc_lsn_scn`, with the number of base updates.  A second round of the
loop is enough whenever the loop ends at all, since `updateBase` with the same base
changes nothing the second time; `none` is a loop that never ends. -/
def allocLsnScn (allocator : LSNAllocator) (args : AllocArgs) :
    Option (Nat × AllocResult × LSNAllocator) :=
  if allocator.isInited = false then some (0, .refused .notInit, allocator)
  else if allocArgsInvalid args then
    some (0, .refused .invalidArgument, allocator)
  else allocLoop 2 allocator args

@[simp]
theorem updateBase_lastLogId (allocator : LSNAllocator) (baseScn : Nat) :
    (allocator.updateBase baseScn).lastLogId = allocator.lastLogId := by
  simp [updateBase, lastLogId]

/-- The allocator on which the inner loop works: the bases have been updated
`updates` times, at most once and only if that was necessary. -/
def Rebased (allocator : LSNAllocator) (baseScn : Nat) (base : LSNAllocator) (updates : Nat) :
    Prop :=
  base.needUpdateBase baseScn = false ∧ (updates = 0 ∧ base = allocator ∨
      updates = 1 ∧ allocator.needUpdateBase baseScn = true ∧ base = allocator.updateBase baseScn)

section

variable {allocator base : LSNAllocator} {baseScn updates : Nat}

section

variable (h : Rebased allocator baseScn base updates)

include h

theorem Rebased.lsn_eq : base.lsn = allocator.lsn := by
  rcases h.2 with ⟨_, rfl⟩ | ⟨_, _, rfl⟩ <;> rfl

theorem Rebased.isNeedCut_eq :
    base.isNeedCut = allocator.isNeedCut := by
  rcases h.2 with ⟨_, rfl⟩ | ⟨_, _, rfl⟩ <;> rfl

theorem Rebased.lastLogId_eq :
    base.lastLogId = allocator.lastLogId := by
  rcases h.2 with ⟨_, rfl⟩ | ⟨_, _, rfl⟩
  · rfl
  · exact updateBase_lastLogId allocator baseScn

end

end

theorem allocLoop_two_cases {out : Nat × AllocResult × LSNAllocator}
    (h : allocLoop 2 allocator args = some out) :
    ∃ base, Rebased allocator args.baseScn base out.1 ∧ base.allocOnce args = out.2 := by
  simp only [allocLoop] at h
  by_cases hneed : allocator.needUpdateBase args.baseScn = true
  · simp only [hneed, if_true] at h
    by_cases hagain : (allocator.updateBase args.baseScn).needUpdateBase args.baseScn = true
    · simp [hagain] at h
    · simp only [hagain, Bool.false_eq_true, if_false, map_some, Option.some.injEq] at h
      subst h
      exact ⟨_, ⟨by simpa using hagain, .inr ⟨rfl, hneed, rfl⟩⟩, rfl⟩
  · simp only [hneed, Bool.false_eq_true, if_false, Option.some.injEq] at h
    subst h
    exact ⟨_, ⟨by simpa using hneed, .inl ⟨rfl, rfl⟩⟩, rfl⟩

/-- What a call of `alloc_lsn_scn` can do. -/
theorem allocLsnScn_cases {updates : Nat} {result : AllocResult}
    (h : allocator.allocLsnScn args = some (updates, result, next)) :
    (allocator.isInited = false ∧ updates = 0 ∧ result = .refused .notInit ∧ next = allocator) ∨
    (allocArgsInvalid args = true ∧ updates = 0 ∧
      result = .refused .invalidArgument ∧ next = allocator) ∨
    (allocator.isInited = true ∧ allocArgsInvalid args = false ∧
      ∃ base, Rebased allocator args.baseScn base updates ∧
        base.allocOnce args = (result, next)) := by
  unfold allocLsnScn at h
  by_cases hinit : allocator.isInited = false
  · rw [if_pos hinit, Option.some.injEq, Prod.mk.injEq, Prod.mk.injEq] at h
    exact .inl ⟨hinit, h.1.symm, h.2.1.symm, h.2.2.symm⟩
  rw [if_neg hinit] at h
  by_cases hargs : allocArgsInvalid args = true
  · rw [if_pos hargs, Option.some.injEq, Prod.mk.injEq, Prod.mk.injEq] at h
    exact .inr (.inl ⟨hargs, h.1.symm, h.2.1.symm, h.2.2.symm⟩)
  rw [if_neg hargs] at h
  obtain ⟨base, hbase, honce⟩ := allocLoop_two_cases h
  exact .inr (.inr ⟨by simpa using hinit, by simpa using hargs, base, hbase, honce⟩)

theorem allocOnce_cases
    {result : AllocResult} (h : allocator.allocOnce args = (result, next)) :
    (place allocator.isNeedCut (lsn2Offset allocator.lsn) args.size.toNat = none ∧
      result = .refused .errUnexpected ∧ next = allocator) ∨
    (∃ placement, place allocator.isNeedCut (lsn2Offset allocator.lsn) args.size.toNat =
        some placement ∧
      ((args.logIdUpperBound < allocator.lastLogId + placement.logIds ∨ args.lsnUpperBound <
            (allocator.nextMeta args.baseScn placement).lsnVal.toNat) ∧
        result = .refused .eagain ∧ next = allocator ∨
      allocator.lastLogId + placement.logIds ≤ args.logIdUpperBound ∧
        (allocator.nextMeta args.baseScn placement).lsnVal.toNat ≤ args.lsnUpperBound ∧
        result = .granted (allocator.grant args.baseScn placement) ∧
        next = { allocator with
          lsnTsMeta := allocator.nextMeta args.baseScn placement })) := by
  unfold allocOnce at h
  cases hplace :
      place allocator.isNeedCut (lsn2Offset allocator.lsn) args.size.toNat with
  | none =>
    simp only [hplace, Prod.mk.injEq] at h
    exact .inl ⟨rfl, h.1.symm, h.2.symm⟩
  | some placement =>
    simp only [hplace] at h
    refine .inr ⟨placement, rfl, ?_⟩
    split at h
    · rename_i hbound
      simp only [Prod.mk.injEq] at h
      exact .inl ⟨hbound, h.1.symm, h.2.symm⟩
    rename_i hbound
    simp only [Prod.mk.injEq] at h
    rw [not_or, not_lt, not_lt] at hbound
    exact .inr ⟨hbound.1, hbound.2, h.1.symm, h.2.symm⟩

end LSNAllocator

/-- The five ways to place a log, with what the source has tested. -/
inductive PlacedAs (isNeedCut : Bool) (offset size : Nat) : Placement → Prop
  | newGroup
      (hopen : isNeedCut = true ∨ 0 < offset ∧ logCutTrigger < cutOffset offset + size)
      (hfit : offset + newGroupLogSize size + clogFileTailPaddingTrigger ≤ palfBlockSize) :
      PlacedAs isNeedCut offset size (placeNewGroup offset size)
  | append (hcut : isNeedCut = false)
      (hjoin : 0 < offset → 0 < cutOffset offset ∧ cutOffset offset + size ≤ logCutTrigger)
      (hfit : offset + size + clogFileTailPaddingTrigger ≤ palfBlockSize) :
      PlacedAs isNeedCut offset size (placeAppend offset size)
  | newGroupToEnd
      (hopen : isNeedCut = true ∨ 0 < offset ∧ logCutTrigger < cutOffset offset + size)
      (hend : offset + newGroupLogSize size = palfBlockSize) :
      PlacedAs isNeedCut offset size
        { placeNewGroup offset size with
          blockSwitch := true, nextBlockOffset := 0, isNextNeedCut := true }
  | appendToEnd (hcut : isNeedCut = false)
      (hjoin : 0 < offset → 0 < cutOffset offset ∧ cutOffset offset + size ≤ logCutTrigger)
      (hend : offset + size = palfBlockSize) :
      PlacedAs isNeedCut offset size
        { placeAppend offset size with
          blockSwitch := true, nextBlockOffset := 0, isNextNeedCut := true }
  | padded
      (hfull : palfBlockSize < offset + newGroupLogSize size + clogFileTailPaddingTrigger)
      (hne : isNeedCut = true → offset + newGroupLogSize size ≠ palfBlockSize) :
      PlacedAs isNeedCut offset size (placePadded offset size)

theorem placeAtTail_cases (offset size : Nat) (placement : Placement) :
    (placement.nextBlockOffset + clogFileTailPaddingTrigger ≤ palfBlockSize ∧
      placeAtTail offset size placement = placement) ∨
    (placement.nextBlockOffset = palfBlockSize ∧ placeAtTail offset size placement =
        { placement with
          blockSwitch := true, nextBlockOffset := 0, isNextNeedCut := true }) ∨
    (palfBlockSize < placement.nextBlockOffset + clogFileTailPaddingTrigger ∧
      placement.nextBlockOffset ≠ palfBlockSize ∧
      placeAtTail offset size placement = placePadded offset size) := by
  unfold placeAtTail
  by_cases hlt : placement.nextBlockOffset < palfBlockSize
  · by_cases htail : palfBlockSize - placement.nextBlockOffset < clogFileTailPaddingTrigger
    · exact .inr (.inr ⟨by omega, by omega, by simp [hlt, htail]⟩)
    · exact .inl ⟨by omega, by simp [hlt, htail]⟩
  by_cases hend : placement.nextBlockOffset = palfBlockSize
  · exact .inr (.inl ⟨hend, by simp [hend]⟩)
  · refine .inr (.inr ⟨?_, hend, by simp [hlt, hend]⟩)
    omega

variable {offset size : Nat} {isNeedCut : Bool}

theorem placedAs_of_newGroup
    (hopen : isNeedCut = true ∨ 0 < offset ∧ logCutTrigger < cutOffset offset + size) :
    PlacedAs isNeedCut offset size
      (placeAtTail offset size (placeNewGroup offset size)) := by
  rcases placeAtTail_cases offset size (placeNewGroup offset size) with
    ⟨hfit, heq⟩ | ⟨hend, heq⟩ | ⟨hfull, hne, heq⟩
  · rw [heq]
    exact .newGroup hopen hfit
  · rw [heq]
    exact .newGroupToEnd hopen hend
  · rw [heq]
    exact .padded hfull (fun _ => hne)

theorem placedAs_of_append (hcut : isNeedCut = false)
    (hjoin : 0 < offset → 0 < cutOffset offset ∧ cutOffset offset + size ≤ logCutTrigger) :
    PlacedAs isNeedCut offset size
      (placeAtTail offset size (placeAppend offset size)) := by
  rcases placeAtTail_cases offset size (placeAppend offset size) with
    ⟨hfit, heq⟩ | ⟨hend, heq⟩ | ⟨hfull, hne, heq⟩
  · rw [heq]
    exact .append hcut hjoin hfit
  · rw [heq]
    exact .appendToEnd hcut hjoin hend
  rw [heq]
  refine .padded ?_ (by simp [hcut])
  simp only [placeAppend] at hfull
  unfold newGroupLogSize
  omega

theorem placedAs_of_place
    {placement : Placement} (h : place isNeedCut offset size = some placement) :
    PlacedAs isNeedCut offset size placement := by
  unfold place placeInBlock at h
  split at h
  · rename_i hcut
    simp only [map_some, Option.some.injEq] at h
    subst h
    exact placedAs_of_newGroup (.inl hcut)
  rename_i hcut
  split at h
  · simp at h
  split at h
  · rename_i hcross
    simp only [map_some, Option.some.injEq] at h
    subst h
    exact placedAs_of_newGroup (.inr hcross)
  rename_i hcross
  simp only [map_some, Option.some.injEq] at h
  subst h
  refine placedAs_of_append (by simpa using hcut) ?_
  intro hpos
  constructor <;> omega

/-- The `OB_ERR_UNEXPECTED` branch needs an uncut log that ends on a 2MB
boundary inside its block. -/
theorem place_eq_none_iff (isNeedCut : Bool) (offset size : Nat) :
    place isNeedCut offset size = none ↔ isNeedCut = false ∧ 0 < offset ∧ cutOffset offset = 0 := by
  unfold place placeInBlock
  cases isNeedCut with
  | true => simp
  | false =>
    by_cases hbound : 0 < offset ∧ cutOffset offset = 0
    · simp [hbound]
    · rw [if_neg (by simp), if_neg hbound]
      simp only [true_and, hbound, iff_false]
      split <;> simp

/-! Runs of the allocator. -/

/-- One operation with what it returned; an allocation also says how often it
has updated the bases. -/
inductive AllocatorEvent
  | allocLsnScn (args : AllocArgs) (updates : Nat) (result : AllocResult)
  | tryFreeze (out : LSNAllocator.FreezeOut)
  | tryFreezeByTime (out : LSNAllocator.FreezeOut)
  | incUpdateScnBase (refScn : Nat) (ret : ObRet)
  deriving Repr, DecidableEq

/-- The operations on a running allocator; `Admits` restricts the allocations
under consideration. -/
inductive AllocatorStep (Admits : LSNAllocator → AllocArgs → Prop) :
    LSNAllocator → AllocatorEvent → LSNAllocator → Prop
  | allocLsnScn {allocator next : LSNAllocator} {args : AllocArgs}
      {updates : Nat} {result : AllocResult} (hadmits : Admits allocator args)
      (hcall : allocator.allocLsnScn args = some (updates, result, next)) :
      AllocatorStep Admits allocator (.allocLsnScn args updates result) next
  | tryFreeze (allocator : LSNAllocator) :
      AllocatorStep Admits allocator (.tryFreeze allocator.tryFreeze.1)
        allocator.tryFreeze.2
  | tryFreezeByTime (allocator : LSNAllocator) :
      AllocatorStep Admits allocator (.tryFreezeByTime allocator.tryFreezeByTime.1)
        allocator.tryFreezeByTime.2
  | incUpdateScnBase (allocator : LSNAllocator) (refScn : Nat) :
      AllocatorStep Admits allocator
        (.incUpdateScnBase refScn (allocator.incUpdateScnBase refScn).1)
        (allocator.incUpdateScnBase refScn).2

theorem AllocatorStep.mono {Admits Admits' : LSNAllocator → AllocArgs → Prop}
    (himp : ∀ allocator args, Admits allocator args → Admits' allocator args)
    {event : AllocatorEvent}
    (hstep : AllocatorStep Admits allocator event next) :
    AllocatorStep Admits' allocator event next := by
  cases hstep with
  | allocLsnScn hadmits hcall => exact .allocLsnScn (himp _ _ hadmits) hcall
  | tryFreeze => exact .tryFreeze _
  | tryFreezeByTime => exact .tryFreezeByTime _
  | incUpdateScnBase refScn => exact .incUpdateScnBase _ refScn

/-- An allocator fresh from `init`. -/
def LSNAllocator.Started (logId : Int) (scn startLsn : Nat) (allocator : LSNAllocator) : Prop :=
  startLsn < uint64Modulus ∧ LSNAllocator.reset.init logId scn startLsn = (.success, allocator)

theorem LSNAllocator.Started.eq {logId : Int} {scn startLsn : Nat}
    (h : Started logId scn startLsn allocator) :
    startLsn < uint64Modulus ∧ scnIsValid scn = true ∧ allocator =
        { lsnTsMeta :=
            { isNeedCut := true, logIdDelta := 0, scnDelta := 0,
              lsnVal := BitVec.ofNat 64 startLsn }
          logIdBase := logId
          scnBase := scn
          isInited := true } := by
  obtain ⟨hlsn, h⟩ := h
  unfold init at h
  rw [if_neg (by simp [reset])] at h
  split at h
  · simp at h
  rename_i hargs
  simp only [not_or, Bool.not_eq_false] at hargs
  simp only [Prod.mk.injEq, true_and] at h
  exact ⟨hlsn, hargs.2.1, h.symm⟩

theorem LSNAllocator.Started.logId_ne {logId : Int} {scn startLsn : Nat}
    (h : Started logId scn startLsn allocator) :
    logId ≠ obInvalidLogId := by
  rintro rfl
  simp [Started, init, reset] at h

end SeekDB
