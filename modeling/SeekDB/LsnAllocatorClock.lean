/-
The log ids and SCNs the allocator gives out.

The abstract clock is a pair of unbounded numbers, the last log id and the last
SCN.  The allocator keeps them as two bases and two distances in narrow bit
fields; it refines the clock as long as the SCNs stay below their maximum, and
the order of ids and SCNs is a property of the clock.
-/
import SeekDB.LsnAllocator

namespace SeekDB

open LSNAllocator List

/-- The exact last log id and SCN. -/
structure LogClock where
  maxLogId : Int
  maxScn : Nat
  deriving Repr, DecidableEq

/-- Raise the SCN to at least `scn`. -/
def LogClock.raise (clock : LogClock) (scn : Nat) : LogClock :=
  { clock with maxScn := max clock.maxScn scn }

/-- A base update raises the SCN to the requested one before any log gets it. -/
def LogClock.rebase (clock : LogClock) (baseScn updates : Nat) : LogClock :=
  if updates = 0 then clock else clock.raise baseScn

/-- The SCN of the next log. -/
def LogClock.nextScn (clock : LogClock) (baseScn : Nat) : Nat :=
  max baseScn (clock.maxScn + 1)

/-- The clock after a padding, if there is one, and a log. -/
def LogClock.advance (clock : LogClock) (baseScn : Nat) (isNewGroupLog needGenPaddingEntry : Bool) :
    LogClock where
  maxLogId := clock.maxLogId + isNewGroupLog.toNat + needGenPaddingEntry.toNat
  maxScn := clock.nextScn baseScn + needGenPaddingEntry.toNat

open LogClock

/-- What the allocator's operations mean for the clock. -/
inductive ClockStep : LogClock → AllocatorEvent → LogClock → Prop
  | refused (clock : LogClock) (args : AllocArgs) {updates : Nat}
      (hupdates : updates ≤ 1) (ret : ObRet) :
      ClockStep clock (.allocLsnScn args updates (.refused ret))
        (clock.rebase args.baseScn updates)
  | granted (clock : LogClock) (args : AllocArgs) {updates : Nat}
      {grant : AllocGrant} (hupdates : updates ≤ 1)
      (hlogId : grant.logId = clock.maxLogId + grant.isNewGroupLog.toNat)
      (hscn : grant.scnVal = (clock.rebase args.baseScn updates).nextScn args.baseScn)
      (hpadding : grant.needGenPaddingEntry = true → grant.isNewGroupLog = true) :
      ClockStep clock (.allocLsnScn args updates (.granted grant))
        ((clock.rebase args.baseScn updates).advance args.baseScn
          grant.isNewGroupLog grant.needGenPaddingEntry)
  | tryFreeze (clock : LogClock) (ret : ObRet) (lastLsn : Nat) :
      ClockStep clock (.tryFreeze ⟨ret, lastLsn, clock.maxLogId⟩) clock
  | tryFreezeByTime (clock : LogClock) (ret : ObRet) (lastLsn : Nat) :
      ClockStep clock (.tryFreezeByTime ⟨ret, lastLsn, clock.maxLogId⟩) clock
  | incUpdateScnBase (clock : LogClock) {refScn : Nat}
      (hvalid : scnIsValid refScn = true) :
      ClockStep clock (.incUpdateScnBase refScn .success) (clock.raise refScn)
  | incUpdateInvalid (clock : LogClock) {refScn : Nat}
      (hinvalid : scnIsValid refScn = false) :
      ClockStep clock (.incUpdateScnBase refScn .invalidArgument) clock

/-! What a clock hands out, newest first. -/

/-- SCNs of the padding and the log of one grant. -/
def AllocGrant.scns (grant : AllocGrant) : List Nat :=
  if grant.needGenPaddingEntry then [grant.scnVal + 1, grant.scnVal]
  else [grant.scnVal]

/-- Log ids of the padding and the group opened by one grant. -/
def AllocGrant.newLogIds (grant : AllocGrant) : List Int :=
  if grant.needGenPaddingEntry then [grant.logId + 1, grant.logId]
  else if grant.isNewGroupLog then [grant.logId]
  else []

def recordScns (scns : List Nat) : AllocatorEvent → List Nat
  | .allocLsnScn _ _ (.granted grant) => grant.scns ++ scns
  | _ => scns

def recordLogIds (logIds : List Int) : AllocatorEvent → List Int
  | .allocLsnScn _ _ (.granted grant) => grant.newLogIds ++ logIds
  | _ => logIds

def grantedScns (events : List AllocatorEvent) : List Nat :=
  events.foldl recordScns []

def grantedLogIds (events : List AllocatorEvent) : List Int :=
  events.foldl recordLogIds []

@[simp]
theorem grantedScns_snoc (events : List AllocatorEvent) (event : AllocatorEvent) :
    grantedScns (events ++ [event]) = recordScns (grantedScns events) event := by
  simp [grantedScns]

@[simp]
theorem grantedLogIds_snoc (events : List AllocatorEvent) (event : AllocatorEvent) :
    grantedLogIds (events ++ [event]) = recordLogIds (grantedLogIds events) event := by
  simp [grantedLogIds]

/-- The `count` ids behind `logId`, newest first. -/
def idsAfter (logId : Int) : Nat → List Int
  | 0 => []
  | count + 1 => (logId + count + 1) :: idsAfter logId count

/-- The order of ids and SCNs in a run of the clock from `⟨logId, scn⟩`. -/
structure ClockOrdered (logId : Int) (events : List AllocatorEvent) (clock : LogClock) : Prop where
  scns_increase : (grantedScns events).Pairwise (· > ·)
  scns_bounded : ∀ scn ∈ grantedScns events, scn ≤ clock.maxScn
  scns_requested : ∀ args updates grant,
    .allocLsnScn args updates (.granted grant) ∈ events → args.baseScn ≤ grant.scnVal
  ids_consecutive : grantedLogIds events = idsAfter logId (grantedLogIds events).length
  ids_counted : clock.maxLogId = logId + (grantedLogIds events).length
  updates_once : ∀ args updates result,
    .allocLsnScn args updates result ∈ events → updates ≤ 1

theorem LogClock.le_rebase (clock : LogClock) (baseScn updates : Nat) :
    clock.maxScn ≤ (clock.rebase baseScn updates).maxScn := by
  unfold rebase
  split
  · exact le_rfl
  · exact Nat.le_max_left _ _

@[simp]
theorem LogClock.rebase_maxLogId (clock : LogClock) (baseScn updates : Nat) :
    (clock.rebase baseScn updates).maxLogId = clock.maxLogId := by
  unfold rebase
  split <;> rfl

variable {events : List AllocatorEvent} {event : AllocatorEvent} {logId : Int}

theorem ClockOrdered.idle {clock next : LogClock} (hinv : ClockOrdered logId events clock)
    (hscn : clock.maxScn ≤ next.maxScn) (hid : next.maxLogId = clock.maxLogId)
    (hscns : recordScns (grantedScns events) event = grantedScns events)
    (hids : recordLogIds (grantedLogIds events) event = grantedLogIds events)
    (hgrant : ∀ args updates grant, event ≠ .allocLsnScn args updates (.granted grant))
    (hupdates : ∀ args updates result, event = .allocLsnScn args updates result → updates ≤ 1) :
    ClockOrdered logId (events ++ [event]) next := by
  constructor
  · rw [grantedScns_snoc, hscns]
    exact hinv.scns_increase
  · rw [grantedScns_snoc, hscns]
    intro scn hmem
    exact Nat.le_trans (hinv.scns_bounded scn hmem) hscn
  · intro args updates grant hmem
    rcases mem_append.mp hmem with hold | hnew
    · exact hinv.scns_requested args updates grant hold
    · exact absurd (mem_singleton.mp hnew).symm (hgrant args updates grant)
  · rw [grantedLogIds_snoc, hids]
    exact hinv.ids_consecutive
  · rw [grantedLogIds_snoc, hids, hid]
    exact hinv.ids_counted
  · intro args updates result hmem
    rcases mem_append.mp hmem with hold | hnew
    · exact hinv.updates_once args updates result hold
    · exact hupdates args updates result (mem_singleton.mp hnew).symm

variable {grant : AllocGrant}

theorem pairwise_grant_scns {scns : List Nat} {bound : Nat} (hold : scns.Pairwise (· > ·))
    (hbound : ∀ scn ∈ scns, scn ≤ bound) (hnew : bound < grant.scnVal) :
    (grant.scns ++ scns).Pairwise (· > ·) := by
  have hscn : (grant.scnVal :: scns).Pairwise (· > ·) := by
    refine pairwise_cons.mpr ⟨fun scn hmem => ?_, hold⟩
    exact Nat.lt_of_le_of_lt (hbound scn hmem) hnew
  unfold AllocGrant.scns
  split
  · refine pairwise_cons.mpr ⟨fun scn hmem => ?_, hscn⟩
    rcases mem_cons.mp hmem with rfl | hmem
    · exact Nat.lt_succ_self _
    · have hle := hbound scn hmem
      omega
  · exact hscn

theorem idsAfter_append_grant {count : Nat}
    (hlogId : grant.logId = logId + count + grant.isNewGroupLog.toNat)
    (hpadding : grant.needGenPaddingEntry = true → grant.isNewGroupLog = true) :
    grant.newLogIds ++ idsAfter logId count = idsAfter logId (grant.newLogIds.length + count) := by
  unfold AllocGrant.newLogIds
  by_cases hpad : grant.needGenPaddingEntry = true
  · have hnew := hpadding hpad
    simp only [hpad, if_true, hlogId, hnew, Bool.toNat_true, Nat.cast_one, length_cons, length_nil]
    rw [show 0 + 1 + 1 + count = count + 1 + 1 by omega]
    simp [idsAfter, add_assoc]
  by_cases hnew : grant.isNewGroupLog = true
  · simp only [hpad, hnew, Bool.false_eq_true, if_false, if_true, hlogId,
      Bool.toNat_true, Nat.cast_one, length_cons, length_nil]
    rw [show 0 + 1 + count = count + 1 by omega]
    simp [idsAfter]
  · simp [hpad, hnew]

theorem newLogIds_length
    (hpadding : grant.needGenPaddingEntry = true → grant.isNewGroupLog = true) :
    grant.newLogIds.length = grant.isNewGroupLog.toNat + grant.needGenPaddingEntry.toNat := by
  unfold AllocGrant.newLogIds
  cases hpad : grant.needGenPaddingEntry with
  | true => simp [hpadding hpad]
  | false => cases hnew : grant.isNewGroupLog <;> simp

variable {clock : LogClock}

theorem ClockOrdered.granted {args : AllocArgs} {updates : Nat}
    (hinv : ClockOrdered logId events clock) (hupdates : updates ≤ 1)
    (hlogId : grant.logId = clock.maxLogId + grant.isNewGroupLog.toNat)
    (hscn : grant.scnVal = (clock.rebase args.baseScn updates).nextScn args.baseScn)
    (hpadding : grant.needGenPaddingEntry = true → grant.isNewGroupLog = true) :
    ClockOrdered logId (events ++ [.allocLsnScn args updates (.granted grant)])
      ((clock.rebase args.baseScn updates).advance args.baseScn
        grant.isNewGroupLog grant.needGenPaddingEntry) := by
  have hle := clock.le_rebase args.baseScn updates
  have hnew : clock.maxScn < grant.scnVal := by
    rw [hscn]
    unfold LogClock.nextScn
    omega
  rw [hinv.ids_counted] at hlogId
  have hids := idsAfter_append_grant hlogId hpadding
  rw [← hinv.ids_consecutive] at hids
  constructor
  · rw [grantedScns_snoc]
    exact pairwise_grant_scns hinv.scns_increase hinv.scns_bounded hnew
  · intro scn hmem
    rw [grantedScns_snoc] at hmem
    have hmax : ((clock.rebase args.baseScn updates).advance args.baseScn
        grant.isNewGroupLog grant.needGenPaddingEntry).maxScn =
        grant.scnVal + grant.needGenPaddingEntry.toNat := by
      rw [hscn]
      rfl
    rw [hmax]
    rcases mem_append.mp hmem with hmem | hmem
    · unfold AllocGrant.scns at hmem
      cases hpad : grant.needGenPaddingEntry with
      | true =>
        simp [hpad] at hmem
        simp only [Bool.toNat_true]
        omega
      | false =>
        simp [hpad] at hmem
        omega
    · have hbound := hinv.scns_bounded scn hmem
      omega
  · intro args' updates' grant' hmem
    rcases mem_append.mp hmem with hold | hnew
    · exact hinv.scns_requested args' updates' grant' hold
    obtain ⟨rfl, rfl, rfl⟩ : args' = args ∧ updates' = updates ∧
        grant' = grant := by simpa using hnew
    rw [hscn]
    exact Nat.le_max_left _ _
  · rw [grantedLogIds_snoc]
    change grant.newLogIds ++ grantedLogIds events =
      idsAfter logId (grant.newLogIds ++ grantedLogIds events).length
    rw [length_append]
    exact hids
  · rw [grantedLogIds_snoc]
    change _ = logId + ((grant.newLogIds ++ grantedLogIds events).length : Nat)
    rw [length_append, newLogIds_length hpadding]
    simp only [advance, rebase_maxLogId, hinv.ids_counted]
    omega
  · intro args' updates' result' hmem
    rcases mem_append.mp hmem with hold | hnew
    · exact hinv.updates_once args' updates' result' hold
    · obtain ⟨-, rfl, -⟩ : args' = args ∧ updates' = updates ∧
          result' = .granted grant := by simpa using hnew
      exact hupdates

theorem ClockOrdered.step {clock next : LogClock} (hinv : ClockOrdered logId events clock)
    (hstep : ClockStep clock event next) :
    ClockOrdered logId (events ++ [event]) next := by
  cases hstep with
  | refused =>
    refine hinv.idle (clock.le_rebase _ _) (by simp) rfl rfl (by simp) ?_
    intro args' updates' result' heq
    injection heq with _ hcount _
    omega
  | granted args hupdates hlogId hscn hpadding =>
    exact hinv.granted hupdates hlogId hscn hpadding
  | tryFreeze | tryFreezeByTime | incUpdateInvalid =>
    exact hinv.idle le_rfl rfl rfl rfl (by simp) (by simp)
  | incUpdateScnBase =>
    exact hinv.idle (Nat.le_max_left _ _) rfl rfl rfl (by simp) (by simp)

theorem clock_run_ordered {scn : Nat}
    (hrun : Execution ClockStep ⟨logId, scn⟩ events clock) :
    ClockOrdered logId events clock := by
  refine hrun.history_invariant (P := ClockOrdered logId) ?_
    (fun _ _ _ _ hinv hstep => hinv.step hstep)
  constructor <;> simp [grantedScns, grantedLogIds, idsAfter]

/-! The allocator refines the clock. -/

/-- The allocator's bases and distances represent the clock, and the last SCN
is a valid one. -/
structure Shows (allocator : LSNAllocator) (clock : LogClock) : Prop where
  is_inited : allocator.isInited = true
  log_id : allocator.lastLogId = clock.maxLogId
  scn : allocator.scnBase + allocator.lsnTsMeta.scnDelta.toNat = clock.maxScn
  scn_valid : clock.maxScn ≤ obMaxScnTsNs

theorem obMaxScnTsNs_add_two_lt : obMaxScnTsNs + 2 < uint64Modulus := by decide

variable {allocator : LSNAllocator}

theorem Shows.lastScn_eq
    (hshows : Shows allocator clock) : allocator.lastScn = clock.maxScn := by
  have hmax := obMaxScnTsNs_add_two_lt
  have hvalid := hshows.scn_valid
  unfold lastScn
  rw [hshows.scn]
  exact u64_eq_of_lt (by omega)

theorem Shows.getMaxLogId_eq
    (hshows : Shows allocator clock) : allocator.getMaxLogId = clock.maxLogId := by
  unfold getMaxLogId
  rw [if_pos hshows.is_inited]
  exact hshows.log_id

theorem Shows.getMaxScn_eq
    (hshows : Shows allocator clock) : allocator.getMaxScn = clock.maxScn := by
  have hvalid : ¬ obMaxScnTsNs < clock.maxScn := Nat.not_lt.mpr hshows.scn_valid
  unfold getMaxScn convertForLogservice
  rw [if_pos hshows.is_inited, hshows.lastScn_eq, if_neg hvalid]
  rfl

/-- The SCNs that this allocation may use are all valid. -/
def ScnAdmitted (allocator : LSNAllocator) (args : AllocArgs) : Prop :=
  max args.baseScn allocator.lastScn + 2 ≤ obMaxScnTsNs

section

variable {allocator base : LSNAllocator} {clock : LogClock} {args : AllocArgs}
  {updates : Nat}

section

variable (hshows : Shows allocator clock) (hroom : max args.baseScn clock.maxScn + 2 ≤ obMaxScnTsNs)

include hshows hroom

theorem Shows.nextScn_eq :
    allocator.nextScn args.baseScn = clock.nextScn args.baseScn := by
  have hmax := obMaxScnTsNs_add_two_lt
  unfold LSNAllocator.nextScn LogClock.nextScn
  rw [hshows.lastScn_eq, u64_eq_of_lt (by omega)]

theorem Shows.u64Sub_nextScn :
    u64Sub (u64 (allocator.nextScn args.baseScn + 1)) allocator.scnBase =
        clock.nextScn args.baseScn + 1 - allocator.scnBase ∧
      u64Sub (allocator.nextScn args.baseScn) allocator.scnBase =
        clock.nextScn args.baseScn - allocator.scnBase ∧
      allocator.scnBase ≤ clock.nextScn args.baseScn := by
  have hmax := obMaxScnTsNs_add_two_lt
  have hscn := hshows.scn
  have hnext : clock.nextScn args.baseScn + 1 ≤ obMaxScnTsNs := by
    unfold LogClock.nextScn
    omega
  have hbase : allocator.scnBase ≤ clock.nextScn args.baseScn := by
    unfold LogClock.nextScn
    omega
  rw [hshows.nextScn_eq hroom, u64_eq_of_lt (by omega)]
  exact ⟨u64Sub_eq_of_le (by omega) (by omega),
    u64Sub_eq_of_le hbase (by omega), hbase⟩

theorem Shows.updateBase :
    Shows (allocator.updateBase args.baseScn) (clock.raise args.baseScn) := by
  constructor
  · exact hshows.is_inited
  · rw [updateBase_lastLogId]
    exact hshows.log_id
  · have hzero : (0 : BitVec 35).toNat = 0 := rfl
    simp only [LSNAllocator.updateBase, hshows.lastScn_eq, LogClock.raise]
    omega
  · simp only [LogClock.raise]
    omega

theorem Shows.updateBase_needs_no_more :
    (allocator.updateBase args.baseScn).needUpdateBase args.baseScn = false := by
  have hraised := hshows.updateBase hroom
  have hroom' : max args.baseScn (clock.raise args.baseScn).maxScn + 2 ≤ obMaxScnTsNs := by
    simp only [LogClock.raise]
    omega
  obtain ⟨hsub, -⟩ := hraised.u64Sub_nextScn hroom'
  unfold needUpdateBase
  rw [hsub]
  have hbase : (allocator.updateBase args.baseScn).scnBase = (clock.raise args.baseScn).maxScn := by
    have hscn := hraised.scn
    have hzero : (allocator.updateBase args.baseScn).lsnTsMeta.scnDelta.toNat = 0 :=
      rfl
    omega
  have hdelta : (allocator.updateBase args.baseScn).lsnTsMeta.logIdDelta.toNat = 0 := rfl
  have htwo : (clock.raise args.baseScn).nextScn args.baseScn + 1 -
      (clock.raise args.baseScn).maxScn = 2 := by
    simp only [LogClock.nextScn, LogClock.raise]
    omega
  rw [hbase, htwo, hdelta]
  decide

theorem Shows.rebased (hbase : Rebased allocator args.baseScn base updates) :
    updates ≤ 1 ∧ Shows base (clock.rebase args.baseScn updates) ∧
      max args.baseScn (clock.rebase args.baseScn updates).maxScn + 2 ≤ obMaxScnTsNs := by
  rcases hbase.2 with ⟨rfl, rfl⟩ | ⟨rfl, -, rfl⟩
  · exact ⟨by omega, hshows, hroom⟩
  · refine ⟨by omega, hshows.updateBase hroom, ?_⟩
    simp only [rebase, LogClock.raise, Nat.one_ne_zero, if_false]
    omega

end

theorem Shows.nextMeta (hshows : Shows base clock)
    (hroom : max args.baseScn clock.maxScn + 2 ≤ obMaxScnTsNs)
    (hneed : base.needUpdateBase args.baseScn = false) {placement : Placement} :
    Shows { base with lsnTsMeta := base.nextMeta args.baseScn placement }
        (clock.advance args.baseScn placement.isNewGroupLog placement.needGenPaddingEntry) ∧
      (base.grant args.baseScn placement).scnVal = clock.nextScn args.baseScn := by
  have hmax := obMaxScnTsNs_add_two_lt
  obtain ⟨hsub, hsub', hle⟩ := hshows.u64Sub_nextScn hroom
  unfold needUpdateBase at hneed
  simp only [Bool.or_eq_false_iff, decide_eq_false_iff_not, Nat.not_le] at hneed
  obtain ⟨hscn, hid⟩ := hneed
  have hnext : clock.nextScn args.baseScn + 1 ≤ obMaxScnTsNs := by
    unfold LogClock.nextScn
    omega
  have hpad : placement.needGenPaddingEntry.toNat ≤ 1 := Bool.toNat_le _
  have hnew : placement.isNewGroupLog.toNat ≤ 1 := Bool.toNat_le _
  have hidFits : base.lsnTsMeta.logIdDelta.toNat + placement.logIds < 2 ^ 28 := by
    unfold Placement.logIds
    unfold logIdDeltaUpperBound at hid
    omega
  have hscnFits : clock.nextScn args.baseScn - base.scnBase +
      placement.needGenPaddingEntry.toNat < 2 ^ 35 := by
    unfold logTsDeltaUpperBound at hscn
    omega
  refine ⟨⟨hshows.is_inited, ?_, ?_, ?_⟩, ?_⟩
  · have hlogId := hshows.log_id
    unfold lastLogId at hlogId
    simp only [lastLogId, LSNAllocator.nextMeta, BitVec.toNat_ofNat, advance]
    rw [Nat.mod_eq_of_lt hidFits]
    unfold Placement.logIds
    omega
  · simp only [LSNAllocator.nextMeta, BitVec.toNat_ofNat, advance]
    omega
  · simp only [advance]
    omega
  · simp only [LSNAllocator.grant, hsub']
    rw [u64_eq_of_lt (by omega)]
    omega

end

theorem Shows.step {allocator next : LSNAllocator} (hshows : Shows allocator clock)
    (hstep : AllocatorStep ScnAdmitted allocator event next) :
    ∃ clock', ClockStep clock event clock' ∧ Shows next clock' := by
  cases hstep with
  | @allocLsnScn _ args updates result hadmits hcall =>
    unfold ScnAdmitted at hadmits
    rw [hshows.lastScn_eq] at hadmits
    rcases allocLsnScn_cases hcall with
      ⟨hnot, -⟩ | ⟨-, rfl, rfl, rfl⟩ | ⟨-, -, base, hbase, honce⟩
    · simp [hshows.is_inited] at hnot
    · exact ⟨clock, .refused clock args (Nat.zero_le 1) _, hshows⟩
    obtain ⟨hupdates, hshows', hroom⟩ := hshows.rebased hadmits hbase
    rcases allocOnce_cases honce with
      ⟨-, rfl, rfl⟩ | ⟨placement, hplace, ⟨-, rfl, rfl⟩ | ⟨-, -, rfl, rfl⟩⟩
    · exact ⟨_, .refused clock args hupdates _, hshows'⟩
    · exact ⟨_, .refused clock args hupdates _, hshows'⟩
    obtain ⟨hnext, hscn⟩ := hshows'.nextMeta hroom hbase.1
    refine ⟨_, .granted clock args hupdates ?_ hscn ?_, hnext⟩
    · have hlogId := hshows'.log_id
      rw [rebase_maxLogId] at hlogId
      simp only [LSNAllocator.grant, hlogId]
    · intro hpad
      cases placedAs_of_place hplace <;>
        simp_all [LSNAllocator.grant, placeNewGroup, placeAppend, placePadded]
  | tryFreeze =>
    refine ⟨clock, ?_, ?_⟩
    · have hevent : allocator.tryFreeze.1 = ⟨.success, allocator.lsn, clock.maxLogId⟩ := by
        simp [LSNAllocator.tryFreeze, hshows.is_inited, hshows.log_id]
      rw [hevent]
      exact .tryFreeze clock _ _
    · unfold LSNAllocator.tryFreeze
      split
      · exact hshows
      · exact { hshows with }
  | tryFreezeByTime =>
    refine ⟨clock, ?_, ?_⟩
    · have hevent : allocator.tryFreezeByTime.1 =
          ⟨if allocator.isNeedCut then .stateNotMatch else .success,
            allocator.lsn, clock.maxLogId⟩ := by
        unfold LSNAllocator.tryFreezeByTime
        rw [if_neg (by simp [hshows.is_inited]), hshows.log_id]
        split <;> rfl
      rw [hevent]
      exact .tryFreezeByTime clock _ _
    · unfold LSNAllocator.tryFreezeByTime
      split
      · exact hshows
      split
      · exact hshows
      · exact { hshows with }
  | incUpdateScnBase refScn =>
    unfold LSNAllocator.incUpdateScnBase
    rw [if_neg (by simp [hshows.is_inited])]
    cases hvalid : scnIsValid refScn with
    | false =>
      exact ⟨clock, by simpa using .incUpdateInvalid clock hvalid,
        by simpa using hshows⟩
    | true =>
      refine ⟨clock.raise refScn, ?_, ?_⟩
      · simp only [Bool.true_eq_false, if_false]
        split <;> exact .incUpdateScnBase clock hvalid
      have hle : refScn ≤ obMaxScnTsNs := by
        unfold obMaxScnTsNs
        have hlt := of_decide_eq_true hvalid
        omega
      simp only [Bool.true_eq_false, if_false, hshows.lastScn_eq]
      split
      · have hsame : clock.raise refScn = clock := by
          simp only [LogClock.raise]
          rw [Nat.max_eq_left (by omega)]
        rw [hsame]
        exact hshows
      have hzero : (0 : BitVec 35).toNat = 0 := rfl
      refine ⟨hshows.is_inited, hshows.log_id, ?_, ?_⟩
      · simp only [LogClock.raise]
        omega
      · simp only [LogClock.raise]
        omega

theorem Shows.start {scn startLsn : Nat}
    (hstart : Started logId scn startLsn allocator) :
    Shows allocator ⟨logId, scn⟩ := by
  obtain ⟨-, hscn, rfl⟩ := hstart.eq
  have hlt := of_decide_eq_true hscn
  refine ⟨rfl, ?_, ?_, ?_⟩
  · simp [lastLogId]
  · simp
  · change scn ≤ obMaxScnTsNs
    unfold obMaxScnTsNs
    omega

/-- A log that is not behind the last one becomes the last one. -/
theorem incUpdateLastLogInfo_accepted {lsn scn : Nat} {logId : Int}
    (hbase : allocator.scnBase < uint64Modulus) (hlsn : lsn < uint64Modulus)
    (hinit : allocator.isInited = true)
    (hgood : ¬ (lsnIsValid lsn = false ∨ scnIsValid scn = false ∨ logId = obInvalidLogId))
    (hnewer : ¬ (logId < allocator.lastLogId ∨ lsn < allocator.lsn)) :
    ∃ next, allocator.incUpdateLastLogInfo lsn logId scn = (.success, next) ∧
      next.isInited = true ∧ next.lastLogId = logId ∧ next.lastScn = scn ∧
      next.isNeedCut = true ∧ next.lsn = lsn ∧ next.scnBase ≤ max scn allocator.scnBase := by
  have hbits : (BitVec.ofNat 64 lsn).toNat = lsn := Nat.mod_eq_of_lt hlsn
  have hlt := of_decide_eq_true (p := scn < _) (Bool.eq_true_of_not_eq_false fun hbad =>
    hgood (.inr (.inl hbad)))
  rw [incUpdateLastLogInfo, if_neg (by simp [hinit]), if_neg hgood, if_neg hnewer]
  split_ifs with hfits
  · refine ⟨_, rfl, hinit, ?_, ?_, rfl, hbits, le_max_left _ _⟩
    · simp [lastLogId]
    · exact u64_eq_of_lt (hlt.trans (by decide))
  refine ⟨_, rfl, hinit, ?_, ?_, rfl, hbits, le_max_right _ _⟩
  · have hdelta : 0 ≤ logId - allocator.logIdBase := by
      unfold lastLogId at hnewer
      omega
    unfold logIdDeltaUpperBound at hfits
    rw [lastLogId, BitVec.toNat_ofInt]
    dsimp only
    omega
  · -- the difference may have wrapped around; the sum then wraps back
    unfold logTsDeltaUpperBound at hfits
    rw [lastScn, BitVec.toNat_ofNat, Nat.mod_eq_of_lt (by omega)]
    dsimp only
    unfold u64 u64Sub
    unfold uint64Modulus at hbase ⊢
    omega

theorem Shows.incUpdateLastLogInfo {lsn scn : Nat}
    (hshows : Shows allocator clock) (hid : logId = allocator.lastLogId + 1)
    (hnonneg : 0 ≤ allocator.lastLogId) (hlsn : allocator.lsn ≤ lsn) (hlt : lsn < logInvalidLsnVal)
    (hscn : scnIsValid scn = true) :
    (allocator.incUpdateLastLogInfo lsn logId scn).1 = .success ∧
      Shows (allocator.incUpdateLastLogInfo lsn logId scn).2 ⟨logId, scn⟩ ∧
      (allocator.incUpdateLastLogInfo lsn logId scn).2.isNeedCut = true ∧
      (allocator.incUpdateLastLogInfo lsn logId scn).2.lsn = lsn := by
  have hgood : ¬ (lsnIsValid lsn = false ∨ scnIsValid scn = false ∨ logId = obInvalidLogId) := by
    have hvalid : lsnIsValid lsn = true := bne_iff_ne.mpr (by omega)
    rw [hvalid, hscn]
    simp only [Bool.true_eq_false, false_or]
    unfold obInvalidLogId
    omega
  have hscnLe : scn ≤ obMaxScnTsNs := Nat.le_sub_one_of_lt (of_decide_eq_true hscn)
  have hmax := obMaxScnTsNs_add_two_lt
  have hshown := hshows.scn
  have hshownLe := hshows.scn_valid
  obtain ⟨next, hcall, hinit, hlast, hlastScn, hcut, hend, hbase⟩ :=
    incUpdateLastLogInfo_accepted (by omega) (hlt.trans (by decide)) hshows.is_inited hgood
      (by omega)
  rw [hcall]
  refine ⟨rfl, ⟨hinit, hlast, ?_, hscnLe⟩, hcut, hend⟩
  have hsum : obMaxScnTsNs + 2 ^ 35 < uint64Modulus := by decide
  rw [← hlastScn, lastScn, u64_eq_of_lt (by omega)]

/-- With enough SCNs left the loop of `alloc_lsn_scn` ends, after at most one
base update, and more rounds would not change its result. -/
theorem Shows.allocLoop_ends {args : AllocArgs}
    (hshows : Shows allocator clock) (hroom : ScnAdmitted allocator args) (fuel : Nat) :
    ∃ out, out.1 ≤ 1 ∧ allocLoop (fuel + 2) allocator args = some out := by
  unfold ScnAdmitted at hroom
  rw [hshows.lastScn_eq] at hroom
  simp only [allocLoop]
  split
  · rw [hshows.updateBase_needs_no_more hroom]
    exact ⟨_, by simp, rfl⟩
  · exact ⟨_, by simp, rfl⟩

/-- Log ids and SCNs after a run that started at `logId` and `scn`. -/
structure ClockSound (logId : Int) (scn : Nat) (events : List AllocatorEvent)
    (final : LSNAllocator) : Prop where
  exact_values : ∃ clock, Execution ClockStep ⟨logId, scn⟩ events clock ∧
    final.getMaxLogId = clock.maxLogId ∧ final.getMaxScn = clock.maxScn
  scns_increase : (grantedScns events).Pairwise (· > ·)
  scns_requested : ∀ args updates grant,
    .allocLsnScn args updates (.granted grant) ∈ events → args.baseScn ≤ grant.scnVal
  ids_consecutive : grantedLogIds events = idsAfter logId (grantedLogIds events).length
  ids_counted : final.getMaxLogId = logId + (grantedLogIds events).length
  updates_once : ∀ args updates result,
    .allocLsnScn args updates result ∈ events → updates ≤ 1
  loop_ends : ∀ args, ScnAdmitted final args → ∀ fuel, ∃ out, out.1 ≤ 1 ∧
    allocLoop (fuel + 2) final args = some out

/-- As long as the SCNs stay valid, the packed words hold the exact last log id
and SCN, both are handed out in order, and the bases are updated at most once
per call. -/
theorem allocator_run_clock {logId : Int} {scn startLsn : Nat} {allocator final : LSNAllocator}
    {events : List AllocatorEvent} (hstart : Started logId scn startLsn allocator)
    (hrun : Execution (AllocatorStep ScnAdmitted) allocator events final) :
    ClockSound logId scn events final := by
  have hstep : ∀ state clock event next, Shows state clock →
      AllocatorStep ScnAdmitted state event next →
      ∃ clock', ClockStep clock event clock' ∧ Shows next clock' :=
    fun _ _ _ _ hshows hnext => hshows.step hnext
  obtain ⟨clock, hclock, hshows⟩ := hrun.simulate (Shows.start hstart) hstep
  have hordered := clock_run_ordered hclock
  constructor
  · exact ⟨clock, hclock, hshows.getMaxLogId_eq, hshows.getMaxScn_eq⟩
  · exact hordered.scns_increase
  · exact hordered.scns_requested
  · exact hordered.ids_consecutive
  · rw [hshows.getMaxLogId_eq]
    exact hordered.ids_counted
  · exact hordered.updates_once
  · exact fun args hroom fuel => hshows.allocLoop_ends hroom fuel

/-- A distant base SCN moves the bases, and the log does not fit into the rest
of its block, so that one call uses two ids and two SCNs. -/
theorem allocator_run_clock_padded : ∃ allocator final events,
      Started 0 1 67099768 allocator ∧
      Execution (AllocatorStep ScnAdmitted) allocator events final ∧
      grantedLogIds events = [2, 1] ∧ ClockSound 0 1 events final := by
  let allocator := (reset.init 0 1 67099768).2
  let args : AllocArgs := ⟨2 ^ 40, 2000, 10, 100000000⟩
  let final : LSNAllocator := ⟨⟨false, 2, 2, 67106816⟩, 0, 2 ^ 40, true⟩
  have hstart : Started 0 1 67099768 allocator :=
    ⟨by decide, by decide⟩
  have hstep : AllocatorStep ScnAdmitted allocator
      (.allocLsnScn args 1 (.granted ⟨67099768, 1, 2 ^ 40 + 1, true, true, 5000⟩)) final :=
    .allocLsnScn (by unfold ScnAdmitted; decide) (by decide)
  have hrun := Execution.refl.snoc hstep
  exact ⟨allocator, final, _, hstart, hrun, by decide,
    allocator_run_clock hstart hrun⟩

/-- At the maximal SCN an allocation moves the clock past it, and the allocator
no longer shows the SCN it has reached. -/
theorem allocator_run_clock_exhausted : ∃ allocator final events,
      Started 0 1 0 allocator ∧
      Execution (AllocatorStep fun _ _ => True) allocator events final ∧
      ¬ ClockSound 0 1 events final := by
  let allocator := (reset.init 0 1 0).2
  let args : AllocArgs := ⟨obMaxScnTsNs, 100, 10, 1000⟩
  let final : LSNAllocator := ⟨⟨false, 1, 1, 148⟩, 0, obMaxScnTsNs, true⟩
  have hstep : AllocatorStep (fun _ _ => True) allocator
      (.allocLsnScn args 1 (.granted ⟨0, 1, obMaxScnTsNs + 1, true, false, 0⟩)) final :=
    .allocLsnScn trivial (by decide)
  refine ⟨allocator, final, _, ⟨by decide, by decide⟩, .snoc .refl hstep, ?_⟩
  intro hsound
  obtain ⟨clock, hclock, -, hscn⟩ := hsound.exact_values
  obtain ⟨start, hnil, hlast⟩ := hclock.of_snoc
  obtain rfl := hnil.of_nil
  cases hlast
  exact absurd hscn (by decide)

/-! `inc_update_last_log_info` compares log ids and LSNs, not SCNs. -/

/-- The call is refused or comes too late, or its SCN is not behind. -/
def LSNAllocator.KeepsScn (allocator : LSNAllocator) (lsn scn : Nat) (logId : Int) : Prop :=
  allocator.isInited = false ∨
    (lsnIsValid lsn = false ∨ scnIsValid scn = false ∨ logId = obInvalidLogId) ∨
    (logId < allocator.lastLogId ∨ lsn < allocator.lsn) ∨ allocator.lastScn ≤ scn

theorem incUpdateLastLogInfo_mono (allocator : LSNAllocator) (lsn scn : Nat) (logId : Int)
    (hbase : allocator.scnBase < uint64Modulus) (hlsn : lsn < uint64Modulus) :
    let next := (allocator.incUpdateLastLogInfo lsn logId scn).2
    allocator.getMaxLogId ≤ next.getMaxLogId ∧ allocator.lsn ≤ next.lsn ∧
      (allocator.getMaxScn ≤ next.getMaxScn ↔ allocator.KeepsScn lsn scn logId) := by
  intro next
  have hsame : ∀ hkeep : allocator.KeepsScn lsn scn logId, next = allocator →
      allocator.getMaxLogId ≤ next.getMaxLogId ∧ allocator.lsn ≤ next.lsn ∧
        (allocator.getMaxScn ≤ next.getMaxScn ↔ allocator.KeepsScn lsn scn logId) :=
    fun hkeep heq => by
      rw [heq]
      exact ⟨le_refl _, le_refl _, fun _ => hkeep, fun _ => le_refl _⟩
  by_cases hinit : allocator.isInited = false
  · exact hsame (.inl hinit) (by simp [next, incUpdateLastLogInfo, hinit])
  by_cases hbad : lsnIsValid lsn = false ∨ scnIsValid scn = false ∨ logId = obInvalidLogId
  · refine hsame (.inr (.inl hbad)) ?_
    simp only [next, incUpdateLastLogInfo, if_neg hinit, if_pos hbad]
  by_cases hold : logId < allocator.lastLogId ∨ lsn < allocator.lsn
  · refine hsame (.inr (.inr (.inl hold))) ?_
    simp only [next, incUpdateLastLogInfo, if_neg hinit, if_neg hbad, if_pos hold]
  have hinited := Bool.eq_true_of_not_eq_false hinit
  obtain ⟨next', hcall, hinit', hid', hscn', -, hlsn', -⟩ :=
    incUpdateLastLogInfo_accepted hbase hlsn hinited hbad hold
  have hscn : scnIsValid scn = true := by
    by_contra hscn
    exact hbad (.inr (.inl (Bool.eq_false_iff.mpr hscn)))
  have hmax : scn ≤ obMaxScnTsNs := Nat.le_sub_one_of_lt (of_decide_eq_true hscn)
  simp only [next, hcall, getMaxLogId, getMaxScn, hinited, hinit', if_true, hid', hlsn', hscn',
    convertForLogservice, if_neg (Nat.not_lt_of_le hmax)]
  refine ⟨by omega, by omega, fun hle => ?_, fun hkeep => ?_⟩
  · refine .inr (.inr (.inr ?_))
    split_ifs at hle with hover
    · exact absurd (hle.trans hmax) (by decide)
    · exact hle
  · rcases hkeep with hkeep | hkeep | hkeep | hle
    · exact absurd hkeep hinit
    · exact absurd hkeep hbad
    · exact absurd hkeep hold
    · rw [if_neg (Nat.not_lt_of_le (hle.trans hmax))]
      exact hle

theorem incUpdateLastLogInfo_mono_next :
    ∃ allocator next : LSNAllocator, allocator.getMaxScn = 1000 ∧ next.getMaxScn = 2000 ∧
      allocator.getMaxLogId ≤ next.getMaxLogId ∧ allocator.lsn ≤ next.lsn ∧
      (allocator.getMaxScn ≤ next.getMaxScn ↔ allocator.KeepsScn 300 2000 2) :=
  ⟨⟨⟨false, 1, 1, 148⟩, 0, 999, true⟩, _, by decide, by decide,
    incUpdateLastLogInfo_mono _ 300 2000 2 (by decide) (by decide)⟩

/-- After `inc_update_scn_base` a log with an SCN below the new base takes the clock back. -/
theorem incUpdateLastLogInfo_regresses :
    ∃ allocator, allocator = ((reset.init 0 1 0).2.incUpdateScnBase 1000).2 ∧
      (allocator.incUpdateLastLogInfo 148 1 500).1 = .success ∧
      allocator.getMaxScn = 1000 ∧
      (allocator.incUpdateLastLogInfo 148 1 500).2.getMaxScn = 500 :=
  ⟨_, rfl, by decide, by decide, by decide⟩

end SeekDB
