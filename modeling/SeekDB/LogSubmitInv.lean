/-
The invariant of the submitting system: the tasks are in balance with what the
threads still owe them, every pending step finds its group, and every byte has
been filled or will be counted later.  Steps of threads and of freezers keep it.
-/
import SeekDB.LogSubmit

namespace SeekDB

open TaskAction SubmitSystem List ProgramPool

/-! What the allocator's operations mean for the threads. -/

/-- The groups, newest first, have the log ids from `high` down to the one
behind `low`. -/
def Numbered (low : Int) : List GroupExtent → Int → Prop
  | [], high => low = high
  | group :: older, high => group.logId = high ∧ Numbered low older (high - 1)

variable {group : GroupExtent}

namespace Numbered

variable {low high : Int} {groups : List GroupExtent}

section

variable (hnumbered : Numbered low groups high)

include hnumbered

theorem low_le_high : low ≤ high := by
  induction groups generalizing high with
  | nil => exact Int.le_of_eq hnumbered
  | cons group older ih =>
    have hle := ih hnumbered.2
    omega

theorem bounds_of_mem (hmem : group ∈ groups) : low < group.logId ∧ group.logId ≤ high := by
  induction groups generalizing high with
  | nil => simp at hmem
  | cons newest older ih =>
    obtain ⟨hnewest, holder⟩ := hnumbered
    have hlow := holder.low_le_high
    rcases mem_cons.mp hmem with rfl | hmem
    · omega
    · have hbounds := ih holder hmem
      omega

theorem eq_of_logId {left right : GroupExtent} (hleft : left ∈ groups) (hright : right ∈ groups)
    (hid : left.logId = right.logId) : left = right := by
  induction groups generalizing high with
  | nil => simp at hleft
  | cons newest older ih =>
    obtain ⟨hnewest, holder⟩ := hnumbered
    rcases mem_cons.mp hleft with rfl | holdLeft
    · rcases mem_cons.mp hright with rfl | holdRight
      · rfl
      · have hbounds := holder.bounds_of_mem holdRight
        omega
    rcases mem_cons.mp hright with rfl | holdRight
    · have hbounds := holder.bounds_of_mem holdLeft
      omega
    · exact ih holder holdLeft holdRight

end

end Numbered

/-- What a submitter gets from the allocator. -/
structure GrantEffect (allocator next : LSNAllocator) (grant : AllocGrant) (size : Nat) : Prop where
  lsn_eq : grant.lsn = allocator.lsn
  lsn_in_range : LsnInRange grant.lsn
  logId_eq : grant.logId = allocator.lastLogId + grant.isNewGroupLog.toNat
  next_logId : next.lastLogId = allocator.lastLogId + grant.isNewGroupLog.toNat +
    grant.needGenPaddingEntry.toNat
  scn_le : grant.scnVal + grant.needGenPaddingEntry.toNat ≤ obMaxScnTsNs
  padding_new : grant.needGenPaddingEntry = true → grant.isNewGroupLog = true
  padding_le : grant.paddingLen ≤ palfBlockSize
  no_padding : grant.needGenPaddingEntry = false → grant.paddingLen = 0
  append_open : grant.isNewGroupLog = false → allocator.isNeedCut = false
  size_pos : 0 < size

theorem grantEffect_of_step {allocator next : LSNAllocator} {clock : LogClock} {args : AllocArgs}
    {updates : Nat} {grant : AllocGrant} (hshows : Shows allocator clock)
    (hstep : AllocatorStep SubmitAdmitted allocator
      (.allocLsnScn args updates (.granted grant)) next) :
    GrantEffect allocator next grant args.size.toNat := by
  obtain ⟨clock', hclock, hshows'⟩ :=
    hshows.step (hstep.mono fun _ _ hadmits => hadmits.2.2)
  have hlast := hshows.log_id
  have hlast' := hshows'.log_id
  have hvalid := hshows'.scn_valid
  cases hclock with
  | granted _ hupdates hlogId hscn hpadding =>
  simp only [LogClock.advance, LogClock.rebase_maxLogId] at hlast' hvalid
  cases hstep with
  | allocLsnScn hadmits hcall =>
  rcases LSNAllocator.allocLsnScn_cases hcall with
    ⟨-, -, hret, -⟩ | ⟨-, -, hret, -⟩ | ⟨-, hargs, base, hbase, honce⟩
  · simp at hret
  · simp at hret
  rcases LSNAllocator.allocOnce_cases honce with
    ⟨-, hret, -⟩ | ⟨placement, hplace, ⟨-, hret, -⟩ | ⟨-, -, hret, -⟩⟩
  · simp at hret
  · simp at hret
  obtain rfl : grant = base.grant args.baseScn placement := by simpa using hret
  have hplaced := placedAs_of_place hplace
  refine ⟨hbase.lsn_eq, ?_, ?_, ?_, ?_, hpadding, ?_, ?_, ?_, ?_⟩
  · have hrange := hadmits.2.1.2
    rwa [← hbase.lsn_eq] at hrange
  · rw [hlast, hlogId]
  · rw [hlast', hlast]
  · rw [hscn]
    exact hvalid
  · cases hplaced <;> simp [LSNAllocator.grant, placeNewGroup, placeAppend, placePadded]
  · cases hplaced <;> simp [LSNAllocator.grant, placeNewGroup, placeAppend, placePadded]
  · rw [← hbase.isNeedCut_eq]
    cases hplaced <;>
      simp_all [LSNAllocator.grant, placeNewGroup, placeAppend, placePadded]
  · have hsize := hadmits.1
    omega

/-! The invariant of the system. -/

/-- Run on its own from here, a program has filled all bytes it counts before
it counts them. -/
def FillsFirst (filled : Nat → Bool) : List TaskAction → Prop
  | [] => True
  | action :: rest =>
    (∀ logId bytes, action = .ref logId bytes →
      ∀ lsn, bytes.start ≤ lsn → lsn < bytes.stop → filled lsn = true) ∧
    FillsFirst (fun lsn => filled lsn || action.fills lsn) rest

variable {filled : Nat → Bool}

theorem FillsFirst.mono {filled' : Nat → Bool} {program : List TaskAction}
    (hmore : ∀ lsn, filled lsn = true → filled' lsn = true) (hfirst : FillsFirst filled program) :
    FillsFirst filled' program := by
  induction program generalizing filled filled' with
  | nil => trivial
  | cons action rest ih =>
    obtain ⟨hhead, hrest⟩ := hfirst
    refine ⟨fun logId bytes heq lsn hlow hhigh =>
      hmore lsn (hhead logId bytes heq lsn hlow hhigh), ih ?_ hrest⟩
    intro lsn hlsn
    rcases Bool.or_eq_true_iff.mp hlsn with hlsn | hlsn
    · simp [hmore lsn hlsn]
    · simp [hlsn]

/-- The action does not fail, and its group is there. -/
def Supported (system : SubmitSystem) (action : TaskAction) : Prop :=
  (∀ ret, action ≠ .fail ret) ∧ ∀ logId, action.target system.startLogId = some logId →
      ∃ group ∈ layout system.history, group.logId = logId ∧
        action.Fits group (Closed system.allocator logId)

/-- Every byte of the group's body has been filled or will be counted later. -/
def Covered (system : SubmitSystem) (group : GroupExtent) : Prop :=
  ∀ lsn, group.start + logGroupEntryHeaderSize ≤ lsn → lsn < group.stop → system.filled lsn = true ∨
      ∃ bytes, Waiting system.pool (.ref group.logId bytes) ∧ bytes.start ≤ lsn ∧ lsn < bytes.stop

structure SubmitInv (logId : Int) (startLsn : Nat) (system : SubmitSystem) :
    Prop where
  layout_inv : LayoutRunInv startLsn system.history system.allocator
  clock : ∃ clock, Shows system.allocator clock
  logId_nonneg : 0 ≤ logId
  start_id : system.startLogId = logId + 1
  numbered : Numbered logId (layout system.history) system.allocator.lastLogId
  fresh : ∀ id, (∀ group ∈ layout system.history, group.logId ≠ id) → system.tasks id = .reset
  tasks : ∀ group ∈ layout system.history,
    TaskInv group (Closed system.allocator group.logId)
      (owed system.pool group.logId) (system.tasks group.logId)
  supported : ∀ action, Waiting system.pool action → Supported system action
  covered : ∀ group ∈ layout system.history, Covered system group
  fills_first : ∀ program ∈ system.pool, FillsFirst system.filled program

theorem GroupExtent.Sound.header_fits (hsound : group.Sound) :
    group.start + logGroupEntryHeaderSize ≤ group.stop := by
  cases hpadding : group.isPadding with
  | false => exact (hsound.entries_tile hpadding).low_le_high
  | true =>
    have hlong := (hsound.padding hpadding).2.2.1
    have hconst : logGroupEntryHeaderSize ≤ clogFileTailPaddingTrigger := by decide
    omega

theorem fills_eq_false {startLogId id : Int} {action : TaskAction}
    (htarget : action.target startLogId = some id) (lsn : Nat) :
    action.fills lsn = false := by
  cases action <;> simp_all [target, fills]

section

variable {system : SubmitSystem} {logId : Int} {startLsn index : Nat}
  {action : TaskAction} {rest : List TaskAction}

theorem act_on_task {id : Int} {task : LogTask}
    (htarget : action.target system.startLogId = some id)
    (htask : action.onTask (system.tasks id) = some task) :
    system.act index action rest =
      { system.setTask id task with pool := system.pool.set index rest } := by
  simp [act, perform, htarget, htask]

theorem act_off_task (htarget : action.target system.startLogId = none)
    (hfail : ∀ ret, action ≠ .fail ret) :
    system.act index action rest =
      { system with
        filled := fun lsn => system.filled lsn || action.fills lsn
        pool := system.pool.set index rest } := by
  cases action <;> simp_all [act, perform]

/-- An action keeps what is said about the bytes, given what it does to the
buffer and the pool. -/
theorem Covered.take {next : SubmitSystem} (hcovered : Covered system group)
    (htake : system.pool[index]? = some (action :: rest))
    (hfirst : FillsFirst system.filled (action :: rest))
    (hpool : next.pool = system.pool.set index rest)
    (hfilled : ∀ lsn, system.filled lsn = true → next.filled lsn = true) :
    Covered next group := by
  intro lsn hlow hhigh
  rcases hcovered lsn hlow hhigh with hdone | ⟨bytes, hwaiting, hfrom, hto⟩
  · exact .inl (hfilled lsn hdone)
  rcases waiting_set_or_eq htake hwaiting with heq | hstill
  · exact .inl (hfilled lsn (hfirst.1 _ _ heq.symm lsn hfrom hto))
  · rw [← hpool] at hstill
    exact .inr ⟨bytes, hstill, hfrom, hto⟩

theorem Covered.allocate {event : AllocatorEvent} {next : LSNAllocator}
    (hcovered : Covered system group) : Covered (system.allocate event next) group := by
  intro lsn hlow hhigh
  rcases hcovered lsn hlow hhigh with hdone | ⟨bytes, hwaiting, hrange⟩
  · exact .inl hdone
  · exact .inr ⟨bytes, waiting_cons.mpr (.inr hwaiting), hrange⟩

theorem fillsFirst_take (hall : ∀ program ∈ system.pool, FillsFirst system.filled program)
    (htake : system.pool[index]? = some (action :: rest))
    (hfilled : ∀ lsn, (system.filled lsn || action.fills lsn) = true → filled lsn = true) :
    ∀ program ∈ system.pool.set index rest, FillsFirst filled program := by
  intro program hprogram
  rcases program_of_set hprogram with rfl | hprogram
  · exact (hall _ (mem_of_getElem? htake)).2.mono hfilled
  · refine (hall program hprogram).mono fun lsn hlsn => hfilled lsn ?_
    simp [hlsn]

theorem SubmitInv.act (hinv : SubmitInv logId startLsn system)
    (htake : system.pool[index]? = some (action :: rest)) :
    SubmitInv logId startLsn (system.act index action rest) := by
  have hfirst := hinv.fills_first _ (mem_of_getElem? htake)
  obtain ⟨hfail, hgroup⟩ := hinv.supported action ⟨_, mem_of_getElem? htake, mem_cons_self⟩
  cases htarget : action.target system.startLogId with
  | none =>
    rw [act_off_task htarget hfail]
    refine { hinv with tasks := ?_, supported := ?_, covered := ?_, fills_first := ?_ }
    · intro group hmem
      have hother : action.target system.startLogId ≠ some group.logId := by
        simp [htarget]
      have htask := hinv.tasks group hmem
      rwa [← owed_take_other htake hother] at htask
    · exact fun other hother => hinv.supported other (waiting_of_set htake hother)
    · exact fun group hmem => (hinv.covered group hmem).take htake hfirst rfl
        (fun lsn hlsn => by simp [hlsn])
    · exact fillsFirst_take hinv.fills_first htake (fun lsn hlsn => hlsn)
  | some id =>
    obtain ⟨group, hmem, rfl, hfits⟩ := hgroup id htarget
    have hlong := (hinv.layout_inv.layout_inv.sound group hmem).header_fits
    obtain ⟨task, htask, hnext⟩ :=
      (hinv.tasks group hmem).onTask htake htarget hfits hlong
    rw [act_on_task htarget htask]
    refine { hinv with
      fresh := ?_, tasks := ?_, supported := ?_, covered := ?_, fills_first := ?_ }
    · intro id hid
      simp only [setTask] at hid ⊢
      rw [if_neg (Ne.symm (hid group hmem))]
      exact hinv.fresh id hid
    · intro other hother
      simp only [setTask] at hother ⊢
      by_cases hsame : other.logId = group.logId
      · obtain rfl := hinv.numbered.eq_of_logId hother hmem hsame
        rw [if_pos rfl]
        exact hnext
      rw [if_neg hsame, owed_take_other htake (by
        rw [htarget]
        simpa using Ne.symm hsame)]
      exact hinv.tasks other hother
    · exact fun other hother => hinv.supported other (waiting_of_set htake hother)
    · exact fun group hmem => (hinv.covered group hmem).take htake hfirst rfl
        (fun lsn hlsn => hlsn)
    · refine fillsFirst_take hinv.fills_first htake (fun lsn hlsn => ?_)
      rwa [fills_eq_false htarget, Bool.or_false] at hlsn

end

theorem SubmitInv.tryPreSubmit {system : SubmitSystem} {logId : Int} {startLsn : Nat}
    (hinv : SubmitInv logId startLsn system) (id : Int) :
    SubmitInv logId startLsn
      (system.setTask id (system.tasks id).tryPreSubmit.2) := by
  have hreset : LogTask.reset.tryPreSubmit.2 = .reset := rfl
  refine { hinv with fresh := ?_, tasks := ?_ }
  · intro other hother
    have hfresh := hinv.fresh other hother
    simp only [setTask]
    split
    · rename_i heq
      rw [← heq, hfresh, hreset]
    · exact hfresh
  · intro group hmem
    have htask := hinv.tasks group hmem
    simp only [setTask]
    split
    · rename_i heq
      rw [← heq]
      unfold LogTask.tryPreSubmit
      split
      · exact { htask with }
      · exact htask
    · exact htask

variable {closed : Prop}

section

variable {system : SubmitSystem} {logId : Int} {startLsn : Nat}
  {next : LSNAllocator} {event : AllocatorEvent}

/-- What one program will pay. -/
def paid (program : List TaskAction) (logId : Int) : Owed where
  refs := (program.map (refWeight logId)).sum
  lens := (program.map (lenWeight logId)).sum
  inits := (program.map (initWeight logId)).sum
  tags := (program.map (tagWeight logId)).sum

def Owed.add (left right : Owed) : Owed where
  refs := left.refs + right.refs
  lens := left.lens + right.lens
  inits := left.inits + right.inits
  tags := left.tags + right.tags

def Owed.zero : Owed := ⟨0, 0, 0, 0⟩

@[simp]
theorem Owed.zero_add (due : Owed) : Owed.zero.add due = due := by
  simp [Owed.zero, Owed.add]

@[simp]
theorem Owed.add_zero (due : Owed) : due.add .zero = due := by
  simp [Owed.zero, Owed.add]

theorem owed_cons (program : List TaskAction) (pool : List (List TaskAction)) (logId : Int) :
    owed (program :: pool) logId = (paid program logId).add (owed pool logId) := by
  simp [owed, paid, Owed.add]

theorem paid_append (left right : List TaskAction) (logId : Int) :
    paid (left ++ right) logId = (paid left logId).add (paid right logId) := by
  simp [paid, Owed.add]

@[simp]
theorem paid_tryFreezePrevLog (nextLogId : Int) (lsn : Nat) (logId : Int) :
    paid (tryFreezePrevLog nextLogId lsn) logId = .zero := by
  unfold tryFreezePrevLog
  split <;> simp [paid, Owed.zero, refWeight, lenWeight, initWeight, tagWeight]

theorem TaskInv.closed_mono {closed' : Prop} {due : Owed} {task : LogTask}
    (hinv : TaskInv group closed due task) (hclosed : closed → closed') :
    TaskInv group closed' due task :=
  { hinv with end_eq := fun hend => ⟨hclosed (hinv.end_eq hend).1, (hinv.end_eq hend).2⟩ }

variable {action : TaskAction}

theorem TaskAction.Fits.closed_mono {closed' : Prop} (hfits : action.Fits group closed)
    (hclosed : closed → closed') : action.Fits group closed' := by
  cases action <;> simp_all [Fits]

/-- An operation that grants nothing. -/
structure IdleEffect (allocator next : LSNAllocator) (event : AllocatorEvent) :
    Prop where
  logId_eq : next.lastLogId = allocator.lastLogId
  lsn_eq : next.lsn = allocator.lsn
  cut : allocator.isNeedCut = true → next.isNeedCut = true
  program : programAfter event = [] ∨ next.isNeedCut = true ∧
    programAfter event = [.freezeLastLogTask allocator.lastLogId allocator.lsn]

theorem idle_or_grant {clock : LogClock} (hshows : Shows system.allocator clock)
    (hstep : AllocatorStep SubmitAdmitted system.allocator event next) :
    (∃ args updates grant, event = .allocLsnScn args updates (.granted grant)) ∨
      recordEvent (layout system.history) event = layout system.history ∧
        IdleEffect system.allocator next event := by
  have hinited := hshows.is_inited
  cases hstep with
  | @allocLsnScn _ args updates result hadmits hcall =>
    cases result with
    | granted grant => exact .inl ⟨args, updates, grant, rfl⟩
    | refused ret =>
      refine .inr ⟨rfl, ?_⟩
      rcases LSNAllocator.allocLsnScn_cases hcall with
        ⟨-, -, -, rfl⟩ | ⟨-, -, -, rfl⟩ | ⟨-, -, base, hbase, honce⟩
      · exact ⟨rfl, rfl, id, .inl rfl⟩
      · exact ⟨rfl, rfl, id, .inl rfl⟩
      rcases LSNAllocator.allocOnce_cases honce with
        ⟨-, -, rfl⟩ | ⟨placement, -, ⟨-, -, rfl⟩ | ⟨-, -, hret, -⟩⟩
      · exact ⟨hbase.lastLogId_eq, hbase.lsn_eq, by rw [hbase.isNeedCut_eq]; exact id,
          .inl rfl⟩
      · exact ⟨hbase.lastLogId_eq, hbase.lsn_eq, by rw [hbase.isNeedCut_eq]; exact id,
          .inl rfl⟩
      · simp at hret
  | tryFreeze =>
    refine .inr ⟨rfl, ?_⟩
    have hout : system.allocator.tryFreeze =
        (⟨.success, system.allocator.lsn, system.allocator.lastLogId⟩, system.allocator.cut) := by
      simp [LSNAllocator.tryFreeze, hinited]
    rw [hout]
    refine ⟨rfl, rfl, fun _ => rfl, ?_⟩
    by_cases hpos : 0 < system.allocator.lastLogId
    · exact .inr ⟨rfl, by simp [programAfter, hpos]⟩
    · exact .inl (by simp [programAfter, hpos])
  | tryFreezeByTime =>
    refine .inr ⟨rfl, ?_⟩
    cases hcut : system.allocator.isNeedCut with
    | true =>
      have hout : system.allocator.tryFreezeByTime =
          (⟨.stateNotMatch, system.allocator.lsn, system.allocator.lastLogId⟩,
            system.allocator) := by
        simp [LSNAllocator.tryFreezeByTime, hinited, hcut]
      rw [hout]
      exact ⟨rfl, rfl, id, .inl (by simp [programAfter])⟩
    | false =>
      have hout : system.allocator.tryFreezeByTime =
          (⟨.success, system.allocator.lsn, system.allocator.lastLogId⟩, system.allocator.cut) := by
        simp [LSNAllocator.tryFreezeByTime, hinited, hcut]
      rw [hout]
      refine ⟨rfl, rfl, fun _ => rfl, ?_⟩
      by_cases hpos : 0 < system.allocator.lastLogId
      · exact .inr ⟨rfl, by simp [programAfter, hpos]⟩
      · exact .inl (by simp [programAfter, hpos])
  | incUpdateScnBase refScn =>
    refine .inr ⟨rfl, ?_, ?_, ?_, .inl rfl⟩
    all_goals
      unfold LSNAllocator.incUpdateScnBase
      repeat' split
      all_goals first | rfl | exact fun h => h | exact fun _ => rfl

theorem SubmitInv.newest (hinv : SubmitInv logId startLsn system)
    (hsome : system.startLogId ≤ system.allocator.lastLogId) :
    ∃ newest ∈ layout system.history,
      newest.logId = system.allocator.lastLogId ∧ newest.stop = system.allocator.lsn := by
  have hnumbered := hinv.numbered
  have htiles := hinv.layout_inv.layout_inv.tiles
  have hstart := hinv.start_id
  cases hgroups : layout system.history with
  | nil =>
    rw [hgroups] at hnumbered
    have heq : logId = system.allocator.lastLogId := hnumbered
    omega
  | cons newest older =>
    rw [hgroups] at hnumbered htiles
    exact ⟨newest, mem_cons_self, hnumbered.1, htiles.1⟩

theorem SubmitInv.idle (hinv : SubmitInv logId startLsn system)
    (hstep : AllocatorStep SubmitAdmitted system.allocator event next)
    (hlayout : recordEvent (layout system.history) event = layout system.history)
    (heffect : IdleEffect system.allocator next event) :
    SubmitInv logId startLsn (system.allocate event next) := by
  obtain ⟨clock, hshows⟩ := hinv.clock
  obtain ⟨clock', -, hshows'⟩ := hshows.step (hstep.mono fun _ _ hadmits => hadmits.2.2)
  have hlayout' : layout (system.history ++ [event]) = layout system.history := by
    rw [layout_snoc, hlayout]
  have hclosed : ∀ id, Closed system.allocator id → Closed next id := by
    rintro id (hlt | hcut)
    · exact .inl (by rw [heffect.logId_eq]; exact hlt)
    · exact .inr (heffect.cut hcut)
  have howed : ∀ id, owed (programAfter event :: system.pool) id = owed system.pool id := by
    intro id
    rw [owed_cons]
    rcases heffect.program with heq | ⟨-, heq⟩ <;>
      simp [heq, paid, Owed.add, refWeight, lenWeight, initWeight, tagWeight]
  refine ⟨hinv.layout_inv.step (hstep.mono fun _ _ hadmits => hadmits.2.1),
    ⟨clock', hshows'⟩, hinv.logId_nonneg, hinv.start_id, ?_, ?_, ?_, ?_, ?_, ?_⟩
  · simp only [allocate, hlayout', heffect.logId_eq]
    exact hinv.numbered
  · simp only [allocate, hlayout']
    exact hinv.fresh
  · intro group hmem
    simp only [allocate, hlayout', howed] at hmem ⊢
    exact (hinv.tasks group hmem).closed_mono (hclosed _)
  · intro action haction
    rcases waiting_cons.mp haction with hnew | hold
    · rcases heffect.program with heq | ⟨hcut, heq⟩
      · simp [heq] at hnew
      obtain rfl : action = .freezeLastLogTask system.allocator.lastLogId
          system.allocator.lsn := by simpa [heq] using hnew
      refine ⟨by simp, fun id htarget => ?_⟩
      change target system.startLogId _ = some id at htarget
      obtain ⟨hge, rfl⟩ : system.startLogId ≤ system.allocator.lastLogId ∧
          system.allocator.lastLogId = id := by
        simpa [target] using htarget
      simp only [allocate, hlayout']
      obtain ⟨newest, hmem, hid, hstop⟩ := hinv.newest hge
      exact ⟨newest, hmem, hid, .inr hcut, hstop.symm⟩
    · obtain ⟨hfail, hgroup⟩ := hinv.supported action hold
      refine ⟨hfail, fun id htarget => ?_⟩
      obtain ⟨group, hmem, hid, hfits⟩ := hgroup id htarget
      simp only [allocate, hlayout']
      exact ⟨group, hmem, hid, hfits.closed_mono (hclosed id)⟩
  · intro group hmem
    simp only [allocate, hlayout'] at hmem
    exact (hinv.covered group hmem).allocate
  · intro program hprogram
    rcases mem_cons.mp hprogram with rfl | hold
    · rcases heffect.program with heq | ⟨-, heq⟩
      · rw [heq]
        trivial
      · rw [heq]
        simp [FillsFirst]
    · exact hinv.fills_first program hold

/-! The program of a submitter. -/

/-- Whatever has been filled before, the program fills what it counts. -/
def SelfContained (program : List TaskAction) : Prop :=
  ∀ filled, FillsFirst filled program

theorem FillsFirst.append {left right : List TaskAction}
    (hleft : FillsFirst filled left) (hright : SelfContained right) :
    FillsFirst filled (left ++ right) := by
  induction left generalizing filled with
  | nil => exact hright filled
  | cons action rest ih => exact ⟨hleft.1, ih hleft.2⟩

theorem SelfContained.append {left right : List TaskAction}
    (hleft : SelfContained left) (hright : SelfContained right) :
    SelfContained (left ++ right) :=
  fun filled => (hleft filled).append hright

theorem selfContained_tryFreezePrevLog (nextLogId : Int) (lsn : Nat) :
    SelfContained (tryFreezePrevLog nextLogId lsn) := by
  intro filled
  unfold tryFreezePrevLog
  split <;> simp [FillsFirst]

section

variable {lsn : Nat} {id : Int} {scn size : Nat} {isPaddingLog : Bool}

/-- Arguments that pass the tests of `generate_new_group_log_` and
`append_to_group_log_`. -/
structure ArgsValid (lsn : Nat) (id : Int) (scn size : Nat) : Prop where
  lsn_valid : lsnIsValid lsn = true
  scn_valid : scnIsValid scn = true
  size_pos : 0 < size
  logId_valid : id ≠ obInvalidLogId

section

variable (hvalid : ArgsValid lsn id scn size)

include hvalid

theorem generateNewGroupLog_eq :
    generateNewGroupLog lsn id scn size isPaddingLog = .initGroup
        { LogTaskHeaderInfo.reset with
          beginLsn := lsn
          isPaddingLog := isPaddingLog
          logId := id
          minScn := scn
          maxScn := scn
          dataLen := size } ::
      (if isPaddingLog then
          [.fill ⟨lsn + logGroupEntryHeaderSize, lsn + logGroupEntryHeaderSize + size⟩]
        else
          [.fill ⟨lsn + logGroupEntryHeaderSize + logEntryHeaderSize,
              lsn + logGroupEntryHeaderSize + size⟩,
            .fill ⟨lsn + logGroupEntryHeaderSize,
              lsn + logGroupEntryHeaderSize + logEntryHeaderSize⟩]) ++
      [.ref id ⟨lsn + logGroupEntryHeaderSize, lsn + logGroupEntryHeaderSize + size⟩,
        .setSubmitLogExist id] := by
  unfold generateNewGroupLog
  rw [if_neg]
  simp [hvalid.lsn_valid, hvalid.scn_valid, hvalid.logId_valid]
  have hpos := hvalid.size_pos
  omega

theorem paid_generateNewGroupLog (logId : Int) :
    paid (generateNewGroupLog lsn id scn size isPaddingLog) logId =
      if id = logId then ⟨size, size, 1, 1⟩ else .zero := by
  rw [generateNewGroupLog_eq hvalid]
  cases isPaddingLog <;> by_cases hid : id = logId <;>
    simp [paid, Owed.zero, refWeight, lenWeight, initWeight, tagWeight, hid]

theorem selfContained_generateNewGroupLog :
    SelfContained (generateNewGroupLog lsn id scn size isPaddingLog) := by
  intro filled
  rw [generateNewGroupLog_eq hvalid]
  cases isPaddingLog
  · simp [FillsFirst, fills]
    omega
  · simp [FillsFirst, fills]
    omega

theorem supported_generateNewGroupLog (hmem : group ∈ layout system.history)
    (hid : group.logId = id) (hstart : group.start = lsn)
    (haction : action ∈ generateNewGroupLog lsn id scn size isPaddingLog) :
    Supported system action := by
  have hpos := hvalid.size_pos
  rw [generateNewGroupLog_eq hvalid] at haction
  cases isPaddingLog <;>
    simp only [Bool.false_eq_true, if_false, if_true, cons_append, nil_append,
      mem_cons, not_mem_nil, or_false] at haction
  all_goals
    rcases haction with rfl | rfl | haction
    · exact ⟨by simp, fun logId htarget => ⟨group, hmem, by
        simpa [target, hid] using htarget, hstart.symm, by simp⟩⟩
    · exact ⟨by simp, by simp [target]⟩
  · rcases haction with rfl | rfl | rfl
    · exact ⟨by simp, by simp [target]⟩
    · exact ⟨by simp, fun logId htarget => ⟨group, hmem, by
        simpa [target, hid] using htarget, by simp [Fits, hpos]⟩⟩
    · exact ⟨by simp, fun logId htarget => ⟨group, hmem, by
        simpa [target, hid] using htarget, trivial⟩⟩
  · rcases haction with rfl | rfl
    · exact ⟨by simp, fun logId htarget => ⟨group, hmem, by
        simpa [target, hid] using htarget, by simp [Fits, hpos]⟩⟩
    · exact ⟨by simp, fun logId htarget => ⟨group, hmem, by
        simpa [target, hid] using htarget, trivial⟩⟩

theorem ref_mem_generateNewGroupLog :
    .ref id ⟨lsn + logGroupEntryHeaderSize, lsn + logGroupEntryHeaderSize + size⟩ ∈
      generateNewGroupLog lsn id scn size isPaddingLog := by
  rw [generateNewGroupLog_eq hvalid]
  simp

end

end

theorem TaskInv.fresh :
    TaskInv group closed ⟨group.bodyLen, group.bodyLen, 1, 1⟩ .reset := by
  constructor <;> simp [LogTask.reset, LogTaskHeaderInfo.reset, lsnIsValid]

section

variable (hinv : SubmitInv logId startLsn system)

include hinv

theorem SubmitInv.owed_fresh {id : Int} (hid : system.allocator.lastLogId < id) :
    owed system.pool id = .zero := by
  have hother : ∀ action, Waiting system.pool action →
      action.target system.startLogId ≠ some id := by
    intro action hwaiting htarget
    obtain ⟨group, hmem, hgroup, -⟩ := (hinv.supported action hwaiting).2 id htarget
    have hbounds := hinv.numbered.bounds_of_mem hmem
    omega
  simp only [owed, Owed.zero, Owed.mk.injEq]
  refine ⟨pending_eq_zero ?_, pending_eq_zero ?_, pending_eq_zero ?_, pending_eq_zero ?_⟩
  all_goals
    intro action hwaiting
    have hne := hother action hwaiting
    cases action <;>
      simp_all [target, refWeight, lenWeight, initWeight, tagWeight]

theorem SubmitInv.task_fresh {id : Int} (hid : system.allocator.lastLogId < id) : system.tasks id =
    .reset := by
  apply hinv.fresh
  intro group hmem heq
  have hbounds := hinv.numbered.bounds_of_mem hmem
  omega

theorem SubmitInv.extend (hstep : AllocatorStep SubmitAdmitted system.allocator event next)
    (hlast : system.allocator.lastLogId < next.lastLogId)
    (hnumbered : Numbered logId (layout (system.history ++ [event])) next.lastLogId)
    (hold : ∀ group ∈ layout system.history, group ∈ layout (system.history ++ [event]) ∧
        paid (programAfter event) group.logId = .zero)
    (hnew : ∀ group ∈ layout (system.history ++ [event]), group ∈ layout system.history ∨
        system.allocator.lastLogId < group.logId ∧
        paid (programAfter event) group.logId = ⟨group.bodyLen, group.bodyLen, 1, 1⟩ ∧
        .ref group.logId ⟨group.start + logGroupEntryHeaderSize, group.stop⟩ ∈ programAfter event)
    (hsupported : ∀ action ∈ programAfter event, Supported (system.allocate event next) action)
    (hcontained : SelfContained (programAfter event)) :
    SubmitInv logId startLsn (system.allocate event next) := by
  obtain ⟨clock, hshows⟩ := hinv.clock
  obtain ⟨clock', -, hshows'⟩ := hshows.step (hstep.mono fun _ _ hadmits => hadmits.2.2)
  have hclosed : ∀ group ∈ layout system.history, Closed next group.logId := by
    intro group hmem
    have hbounds := hinv.numbered.bounds_of_mem hmem
    exact .inl (by omega)
  refine ⟨hinv.layout_inv.step (hstep.mono fun _ _ hadmits => hadmits.2.1),
    ⟨clock', hshows'⟩, hinv.logId_nonneg, hinv.start_id, hnumbered, ?_, ?_, ?_, ?_, ?_⟩
  · exact fun id hid => hinv.fresh id fun group hmem => hid group (hold group hmem).1
  · intro group hmem
    simp only [allocate, owed_cons] at hmem ⊢
    rcases hnew group hmem with hmem | ⟨hfresh, hpaid, -⟩
    · rw [(hold group hmem).2, Owed.zero_add]
      exact (hinv.tasks group hmem).closed_mono fun _ => hclosed group hmem
    · rw [hpaid, hinv.owed_fresh hfresh, hinv.task_fresh hfresh, Owed.add_zero]
      exact .fresh
  · intro action haction
    rcases waiting_cons.mp haction with hprogram | hwaiting
    · exact hsupported action hprogram
    obtain ⟨hfail, hgroup⟩ := hinv.supported action hwaiting
    refine ⟨hfail, fun id htarget => ?_⟩
    obtain ⟨group, hmem, rfl, hfits⟩ := hgroup id htarget
    exact ⟨group, (hold group hmem).1, rfl, hfits.closed_mono fun _ => hclosed group hmem⟩
  · intro group hmem
    rcases hnew group hmem with hmem | ⟨-, -, href⟩
    · exact (hinv.covered group hmem).allocate
    · exact fun lsn hlow hhigh => .inr ⟨_, waiting_cons.mpr (.inl href), hlow, hhigh⟩
  · intro program hprogram
    rcases mem_cons.mp hprogram with rfl | hprogram
    · exact hcontained _
    · exact hinv.fills_first program hprogram

end

theorem supported_tryFreezePrevLog {nextLogId : Int} {lsn : Nat}
    (hlsn : lsnIsValid lsn = true) (hid : nextLogId ≠ obInvalidLogId)
    (hprev : system.startLogId ≤ nextLogId - 1 →
      ∃ group ∈ layout system.history, group.logId = nextLogId - 1 ∧ group.stop = lsn)
    (hlast : nextLogId ≤ system.allocator.lastLogId)
    (haction : action ∈ tryFreezePrevLog nextLogId lsn) : Supported system action := by
  have hargs : ¬ (nextLogId = obInvalidLogId ∨ lsnIsValid lsn = false) := by
    simp [hid, hlsn]
  rw [tryFreezePrevLog, if_neg hargs, mem_singleton] at haction
  subst haction
  refine ⟨by simp, fun logId htarget => ?_⟩
  obtain ⟨⟨-, hge⟩, rfl⟩ : (nextLogId ≠ firstValidLogId ∧
      system.startLogId ≤ nextLogId - 1) ∧ nextLogId - 1 = logId := by
    simpa [target] using htarget
  obtain ⟨group, hmem, hgroup, hstop⟩ := hprev hge
  exact ⟨group, hmem, hgroup, .inl (by omega), hstop.symm⟩

end

end SeekDB
