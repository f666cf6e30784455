/-
Submitters that get a part of the log keep the invariant of the submitting
system, and what it means for submission after every run.
-/
import SeekDB.LogSubmitInv

namespace SeekDB

open SubmitSystem LSNAllocator TaskAction AllocGrant List ProgramPool

variable {group : GroupExtent} {lsn scn : Nat}

section

variable {system : SubmitSystem} {logId : Int} {startLsn : Nat}
  {next : LSNAllocator} {event : AllocatorEvent}

/-! The three ways in which a grant extends the layout. -/

section

variable {args : AllocArgs} {updates size : Nat} {grant : AllocGrant}

theorem lsnIsValid_of_lt (hlt : lsn + 1 < uint64Modulus) : lsnIsValid lsn = true := by
  unfold lsnIsValid logInvalidLsnVal
  simp only [bne_iff_ne]
  omega

theorem scnIsValid_of_le (hle : scn ≤ obMaxScnTsNs) : scnIsValid scn = true := by
  unfold obMaxScnTsNs at hle
  exact decide_eq_true (by omega)

theorem scnPlus_one (hle : scn + 1 ≤ obMaxScnTsNs) : scnPlus scn 1 = scn + 1 := by
  have hmax := obMaxScnTsNs_add_two_lt
  have hone : ¬ obMaxScnTsNs ≤ 1 := by decide
  have hvalid := scnIsValid_of_le (Nat.le_of_succ_le hle)
  have hsum : u64 (scn + 1) = scn + 1 := u64_eq_of_lt (by omega)
  rw [scnPlus, if_neg (by simp [hone, hvalid]), hsum, if_neg (by omega)]

theorem ne_obInvalidLogId {id : Int} (hnonneg : 0 ≤ id) : id ≠ obInvalidLogId := by
  unfold obInvalidLogId
  omega

theorem programAfter_granted (updates : Nat)
    (heffect : GrantEffect system.allocator next grant args.size.toNat) :
    programAfter (.allocLsnScn args updates (.granted grant)) =
      submitLog grant args.size.toNat := by
  have hscn := heffect.scn_le
  have hret : grant.ret = .success := by
    unfold AllocGrant.ret convertForLogservice
    rw [if_neg (by omega)]
  simp [programAfter, hret]

theorem GrantEffect.program_padded (updates : Nat)
    (heffect : GrantEffect system.allocator next grant args.size.toNat)
    (hpad : grant.needGenPaddingEntry = true) :
    programAfter (.allocLsnScn args updates (.granted grant)) =
      tryFreezePrevLog grant.logId grant.lsn ++
      generateNewGroupLog grant.lsn grant.logId grant.scnVal
        (grant.paddingLen - logGroupEntryHeaderSize) true ++
      tryFreezePrevLog (grant.logId + 1) (grant.lsn + grant.paddingLen) ++
      generateNewGroupLog (grant.lsn + grant.paddingLen) (grant.logId + 1)
        (grant.scnVal + 1) args.size.toNat false := by
  have hscn := heffect.scn_le
  rw [hpad, Bool.toNat_true] at hscn
  simp [programAfter_granted updates heffect, submitLog, hpad, scnPlus_one hscn]

theorem GrantEffect.lsnIsValid (heffect : GrantEffect system.allocator next grant size)
    {offset : Nat} (hle : offset ≤ palfBlockSize) : lsnIsValid (grant.lsn + offset) = true := by
  obtain ⟨htwo, hone⟩ := heffect.lsn_in_range.add_block_lt
  have hlsn := lsn_eq_block_add_offset grant.lsn
  have hoffset := lsn2Offset_lt grant.lsn
  have hsplit : (lsn2Block grant.lsn + 2) * palfBlockSize =
      lsn2Block grant.lsn * palfBlockSize + palfBlockSize + palfBlockSize := by
    rw [Nat.add_mul, Nat.two_mul]
    omega
  exact lsnIsValid_of_lt (by omega)

theorem TaskInv.push {closed closed' : Prop} {due : Owed}
    {task : LogTask} (hinv : TaskInv group closed due task) (hopen : ¬ closed)
    (hlong : group.start + logGroupEntryHeaderSize ≤ group.stop) (start size : Nat) :
    TaskInv (group.push ⟨start, group.stop + size⟩) closed'
      (Owed.add ⟨size, size, 0, 0⟩ due) task := by
  have hend : ¬ lsnIsValid task.header.endLsn = true :=
    fun hvalid => hopen (hinv.end_eq hvalid).1
  have hnot : task.isFreezed = false := by
    cases hfreezed : task.isFreezed with
    | false => rfl
    | true => exact absurd (hinv.frozen hfreezed).2 hend
  have hbalance := hinv.ref_balance
  have hdata := hinv.data_balance
  refine ⟨?_, ?_, ?_, ?_, hinv.begin_eq, fun hvalid => absurd hvalid hend, ?_⟩
  · simp only [hnot, Bool.false_eq_true, if_false, GroupExtent.bodyLen,
      GroupExtent.push, Owed.add] at hbalance ⊢
    omega
  · simp only [GroupExtent.bodyLen, GroupExtent.push, Owed.add] at hdata ⊢
    omega
  · simpa [Owed.add] using hinv.init_once
  · simpa [Owed.add] using hinv.tag_once
  · simp [hnot]

theorem TaskAction.Fits.push {closed closed' : Prop} {action : TaskAction}
    (hfits : action.Fits group closed) (hopen : ¬ closed) (entry : Extent) :
    action.Fits (group.push entry) closed' := by
  cases action <;> simp_all [Fits, GroupExtent.push]

theorem appendToGroupLog_eq {id : Int} (hvalid : ArgsValid lsn id scn size) :
    appendToGroupLog lsn id scn size = [.incUpdateMaxScn id scn, .updateDataLen id size,
        .fill ⟨lsn + logEntryHeaderSize, lsn + size⟩,
        .fill ⟨lsn, lsn + logEntryHeaderSize⟩, .ref id ⟨lsn, lsn + size⟩] := by
  have hpos : size ≠ 0 := Nat.pos_iff_ne_zero.mp hvalid.size_pos
  unfold appendToGroupLog
  rw [if_neg (by
    simp [hvalid.lsn_valid, hvalid.scn_valid, hvalid.logId_valid, hpos])]

theorem paid_appendToGroupLog {id : Int} (hvalid : ArgsValid lsn id scn size) (logId : Int) :
    paid (appendToGroupLog lsn id scn size) logId =
      if id = logId then ⟨size, size, 0, 0⟩ else .zero := by
  rw [appendToGroupLog_eq hvalid]
  by_cases hid : id = logId <;>
    simp [paid, Owed.zero, refWeight, lenWeight, initWeight, tagWeight, hid]

theorem selfContained_appendToGroupLog {id : Int} (hvalid : ArgsValid lsn id scn size) :
    SelfContained (appendToGroupLog lsn id scn size) := by
  intro filled
  rw [appendToGroupLog_eq hvalid]
  simp [FillsFirst, fills]
  omega

theorem supported_appendToGroupLog {id : Int} {action : TaskAction}
    (hvalid : ArgsValid lsn id scn size)
    (hgroup : ∃ group ∈ layout system.history, group.logId = id)
    (haction : action ∈ appendToGroupLog lsn id scn size) : Supported system action := by
  obtain ⟨group, hmem, hid⟩ := hgroup
  have hpos := hvalid.size_pos
  rw [appendToGroupLog_eq hvalid] at haction
  simp only [mem_cons, not_mem_nil, or_false] at haction
  rcases haction with rfl | rfl | rfl | rfl | rfl
  all_goals
    refine ⟨by simp, fun logId htarget => ⟨group, hmem, ?_⟩⟩
    simp_all [TaskAction.target, Fits]

section

variable (hinv : SubmitInv logId startLsn system)

include hinv

theorem SubmitInv.logId_pos (heffect : GrantEffect system.allocator next grant size)
    (hnew : grant.isNewGroupLog = true) : 0 < grant.logId := by
  have hid := heffect.logId_eq
  have hnonneg := hinv.logId_nonneg
  have hle := hinv.numbered.low_le_high
  rw [hnew, Bool.toNat_true] at hid
  omega

theorem SubmitInv.prev_group (heffect : GrantEffect system.allocator next grant size)
    (hnew : grant.isNewGroupLog = true) (hge : system.startLogId ≤ grant.logId - 1) :
    ∃ group ∈ layout system.history, group.logId = grant.logId - 1 ∧ group.stop = grant.lsn := by
  have hid := heffect.logId_eq
  rw [hnew, Bool.toNat_true] at hid
  obtain ⟨newest, hmem, hlast, hstop⟩ := hinv.newest (by omega)
  exact ⟨newest, hmem, by omega, by rw [hstop, heffect.lsn_eq]⟩

variable (hstep : AllocatorStep SubmitAdmitted system.allocator
    (.allocLsnScn args updates (.granted grant)) next)
  (heffect : GrantEffect system.allocator next grant args.size.toNat)

include hstep heffect

theorem SubmitInv.newGroup (hnew : grant.isNewGroupLog = true)
    (hpad : grant.needGenPaddingEntry = false) :
    SubmitInv logId startLsn
    (system.allocate (.allocLsnScn args updates (.granted grant)) next) := by
  have hlen := heffect.no_padding hpad
  have hid := heffect.logId_eq
  have hnextId := heffect.next_logId
  have hscn := heffect.scn_le
  have hpos := hinv.logId_pos heffect hnew
  simp only [hnew, hpad, Bool.toNat_true, Bool.toNat_false] at hid hnextId hscn
  have hlsn := heffect.lsnIsValid (Nat.zero_le _)
  have hinvalid : grant.logId ≠ obInvalidLogId := ne_obInvalidLogId (by omega)
  have hargs : ArgsValid grant.lsn grant.logId grant.scnVal args.size.toNat :=
    ⟨hlsn, scnIsValid_of_le (by omega), heffect.size_pos, hinvalid⟩
  have hlayout : layout (system.history ++ [.allocLsnScn args updates (.granted grant)]) =
        grant.newGroup args.size.toNat :: layout system.history := by
    simp [recordEvent, recordGrant, hnew, hpad]
  have hgroup : grant.newGroup args.size.toNat = ⟨grant.logId, grant.lsn,
        grant.lsn + logGroupEntryHeaderSize + args.size.toNat,
        [grant.entry args.size.toNat], false⟩ := by
    simp [AllocGrant.newGroup, AllocGrant.stop, hnew, hpad, hlen]
  have hprogram : programAfter (.allocLsnScn args updates (.granted grant)) =
      tryFreezePrevLog grant.logId grant.lsn ++
        generateNewGroupLog grant.lsn grant.logId grant.scnVal args.size.toNat false := by
    simp [programAfter_granted updates heffect, submitLog, hnew, hpad]
  have hpaid : ∀ id, paid (programAfter (.allocLsnScn args updates (.granted grant))) id =
      if grant.logId = id then ⟨args.size.toNat, args.size.toNat, 1, 1⟩ else .zero := by
    intro id
    rw [hprogram, paid_append, paid_tryFreezePrevLog, Owed.zero_add, paid_generateNewGroupLog hargs]
  refine hinv.extend hstep (by omega) ?_ ?_ ?_ ?_ ?_
  · rw [hlayout]
    refine ⟨by rw [hgroup]; simp only; omega, ?_⟩
    have hprev : next.lastLogId - 1 = system.allocator.lastLogId := by omega
    rw [hprev]
    exact hinv.numbered
  · intro group hmem
    have hbounds := hinv.numbered.bounds_of_mem hmem
    refine ⟨by rw [hlayout]; exact mem_cons_of_mem _ hmem, ?_⟩
    rw [hpaid, if_neg (by omega)]
  · intro group hmem
    rw [hlayout] at hmem
    rcases mem_cons.mp hmem with rfl | hmem
    · refine .inr ?_
      rw [hpaid, hgroup, if_pos rfl]
      refine ⟨by simp only; omega, ?_, ?_⟩
      · simp [GroupExtent.bodyLen]
      · rw [hprogram]
        exact mem_append_right _ (ref_mem_generateNewGroupLog hargs)
    · exact .inl hmem
  · intro action haction
    rw [hprogram] at haction
    rcases mem_append.mp haction with haction | haction
    · refine supported_tryFreezePrevLog hlsn hinvalid ?_ ?_ haction
      · intro hge
        obtain ⟨group, hmem, hprev⟩ := hinv.prev_group heffect hnew hge
        exact ⟨group, by
          simp only [allocate, hlayout]
          exact mem_cons_of_mem _ hmem, hprev⟩
      · simp only [allocate]
        omega
    · refine supported_generateNewGroupLog hargs ?_ (congrArg _ hgroup)
        (congrArg _ hgroup) haction
      simp only [allocate, hlayout]
      exact mem_cons_self
  · rw [hprogram]
    exact (selfContained_tryFreezePrevLog _ _).append
      (selfContained_generateNewGroupLog hargs)

theorem SubmitInv.header_lt_paddingLen (hpad : grant.needGenPaddingEntry = true) :
    logGroupEntryHeaderSize < grant.paddingLen := by
  have hnext := hinv.layout_inv.step (hstep.mono fun _ _ hadmits => hadmits.2.1)
  have hsound := hnext.layout_inv.sound grant.paddingGroup
    (by simp [recordEvent, recordGrant, heffect.padding_new hpad, hpad])
  have hroom := (hsound.padding rfl).2.2.1
  have hconst : logGroupEntryHeaderSize < clogFileTailPaddingTrigger := by decide
  simp only [paddingGroup] at hroom
  omega

theorem SubmitInv.argsValid_padded (hpad : grant.needGenPaddingEntry = true) :
    ArgsValid grant.lsn grant.logId grant.scnVal (grant.paddingLen - logGroupEntryHeaderSize) ∧
    ArgsValid (grant.lsn + grant.paddingLen) (grant.logId + 1) (grant.scnVal + 1)
      args.size.toNat := by
  have hlong := hinv.header_lt_paddingLen hstep heffect hpad
  have hpos := hinv.logId_pos heffect (heffect.padding_new hpad)
  have hscn := heffect.scn_le
  rw [hpad, Bool.toNat_true] at hscn
  exact ⟨⟨heffect.lsnIsValid (Nat.zero_le _), scnIsValid_of_le (by omega), by omega,
      ne_obInvalidLogId (by omega)⟩,
    ⟨heffect.lsnIsValid heffect.padding_le, scnIsValid_of_le hscn, heffect.size_pos,
      ne_obInvalidLogId (by omega)⟩⟩

theorem SubmitInv.padded (hpad : grant.needGenPaddingEntry = true) :
    SubmitInv logId startLsn
    (system.allocate (.allocLsnScn args updates (.granted grant)) next) := by
  have hnew := heffect.padding_new hpad
  have hid := heffect.logId_eq
  have hnextId := heffect.next_logId
  have hpos := hinv.logId_pos heffect hnew
  simp only [hnew, hpad, Bool.toNat_true] at hid hnextId
  have hlayout : layout (system.history ++ [.allocLsnScn args updates (.granted grant)]) =
        grant.newGroup args.size.toNat :: grant.paddingGroup :: layout system.history := by
    simp [recordEvent, recordGrant, hnew, hpad]
  have hlong := hinv.header_lt_paddingLen hstep heffect hpad
  have hgroup : grant.newGroup args.size.toNat = ⟨grant.logId + 1, grant.lsn + grant.paddingLen,
        grant.lsn + grant.paddingLen + logGroupEntryHeaderSize + args.size.toNat,
        [grant.entry args.size.toNat], false⟩ := by
    simp [AllocGrant.newGroup, AllocGrant.stop, hnew, hpad]
  obtain ⟨hpadArgs, hargs⟩ := hinv.argsValid_padded hstep heffect hpad
  have hprogram := heffect.program_padded updates hpad
  have hpaid : ∀ id, paid (programAfter (.allocLsnScn args updates (.granted grant))) id = Owed.add
        (if grant.logId = id then
          ⟨grant.paddingLen - logGroupEntryHeaderSize,
            grant.paddingLen - logGroupEntryHeaderSize, 1, 1⟩ else .zero)
        (if grant.logId + 1 = id then
          ⟨args.size.toNat, args.size.toNat, 1, 1⟩ else .zero) := by
    intro id
    rw [hprogram, paid_append, paid_append, paid_append, paid_tryFreezePrevLog,
      paid_tryFreezePrevLog, Owed.zero_add, Owed.add_zero,
      paid_generateNewGroupLog hpadArgs, paid_generateNewGroupLog hargs]
  have hmemPad : grant.paddingGroup ∈ layout (system.history ++
      [.allocLsnScn args updates (.granted grant)]) := by
    rw [hlayout]
    simp
  refine hinv.extend hstep (by omega) ?_ ?_ ?_ ?_ ?_
  · rw [hlayout]
    refine ⟨by rw [hgroup]; simp only; omega, ?_, ?_⟩
    · simp only [paddingGroup]
      omega
    · have hprev : next.lastLogId - 1 - 1 = system.allocator.lastLogId := by omega
      rw [hprev]
      exact hinv.numbered
  · intro group hmem
    have hbounds := hinv.numbered.bounds_of_mem hmem
    refine ⟨by rw [hlayout]; simp [hmem], ?_⟩
    rw [hpaid, if_neg (by omega), if_neg (by omega), Owed.zero_add]
  · intro group hmem
    rw [hlayout] at hmem
    rcases mem_cons.mp hmem with rfl | hmem
    · refine .inr ?_
      rw [hpaid, hgroup, if_neg (by simp), if_pos rfl, Owed.zero_add]
      refine ⟨by simp only; omega, by simp [GroupExtent.bodyLen], ?_⟩
      rw [hprogram]
      exact mem_append_right _ (ref_mem_generateNewGroupLog hargs)
    rcases mem_cons.mp hmem with rfl | hmem
    · refine .inr ?_
      have hstop : grant.lsn + logGroupEntryHeaderSize +
          (grant.paddingLen - logGroupEntryHeaderSize) =
          grant.lsn + grant.paddingLen := by omega
      have hid : grant.paddingGroup.logId = grant.logId := rfl
      rw [hid, hpaid, if_pos rfl, if_neg (by omega), Owed.add_zero]
      refine ⟨by omega, ?_, ?_⟩
      · simp only [GroupExtent.bodyLen, paddingGroup, Owed.mk.injEq, and_true]
        omega
      · rw [hprogram, paddingGroup, ← hstop]
        exact mem_append_left _ (mem_append_left _
          (mem_append_right _ (ref_mem_generateNewGroupLog hpadArgs)))
    · exact .inl hmem
  · intro action haction
    rw [hprogram] at haction
    simp only [mem_append] at haction
    rcases haction with ((haction | haction) | haction) | haction
    · refine supported_tryFreezePrevLog hpadArgs.lsn_valid hpadArgs.logId_valid ?_ ?_ haction
      · intro hge
        obtain ⟨group, hmem, hprev⟩ := hinv.prev_group heffect hnew hge
        exact ⟨group, by
          simp only [allocate, hlayout]
          simp [hmem], hprev⟩
      · simp only [allocate]
        omega
    · exact supported_generateNewGroupLog hpadArgs hmemPad rfl rfl haction
    · refine supported_tryFreezePrevLog hargs.lsn_valid hargs.logId_valid ?_ ?_ haction
      · intro _
        exact ⟨grant.paddingGroup, hmemPad, by simp [paddingGroup], rfl⟩
      · simp only [allocate]
        omega
    · refine supported_generateNewGroupLog hargs ?_ (congrArg _ hgroup)
        (congrArg _ hgroup) haction
      simp only [allocate, hlayout]
      exact mem_cons_self
  · rw [hprogram]
    exact (((selfContained_tryFreezePrevLog _ _).append
      (selfContained_generateNewGroupLog hpadArgs)).append
      (selfContained_tryFreezePrevLog _ _)).append
      (selfContained_generateNewGroupLog hargs)

theorem SubmitInv.append (hnew : grant.isNewGroupLog = false) :
    SubmitInv logId startLsn
    (system.allocate (.allocLsnScn args updates (.granted grant)) next) := by
  have hpad : grant.needGenPaddingEntry = false := by
    cases hpadding : grant.needGenPaddingEntry with
    | false => rfl
    | true => exact absurd (heffect.padding_new hpadding) (by simp [hnew])
  have hlen := heffect.no_padding hpad
  have hcut := heffect.append_open hnew
  have hid := heffect.logId_eq
  have hnextId := heffect.next_logId
  have hscn := heffect.scn_le
  have hsize := heffect.size_pos
  simp only [hnew, hpad, Bool.toNat_false, Nat.cast_zero, Int.add_zero] at hid hnextId
  obtain ⟨group, older, hgroups, -⟩ := hinv.layout_inv.layout_inv.open_group hcut
  have hmemGroup : group ∈ layout system.history := by
    rw [hgroups]
    exact mem_cons_self
  have hnumbered := hinv.numbered
  have htiles := hinv.layout_inv.layout_inv.tiles
  rw [hgroups] at hnumbered htiles
  have hstop : group.stop = grant.lsn := htiles.1.trans heffect.lsn_eq.symm
  have hlong := (hinv.layout_inv.layout_inv.sound group hmemGroup).header_fits
  have hbounds := hinv.numbered.bounds_of_mem hmemGroup
  have hnonneg := hinv.logId_nonneg
  -- the group that grows is the only one that is not closed
  have hopen : ¬ Closed system.allocator group.logId := by
    rintro (hlt | hneed)
    · exact absurd hnumbered.1 (by omega)
    · simp [hcut] at hneed
  have hclosed : ∀ id, Closed system.allocator id → Closed next id := by
    rintro id (hlt | hneed)
    · exact .inl (by omega)
    · simp [hcut] at hneed
  have hlayout : layout (system.history ++ [.allocLsnScn args updates (.granted grant)]) =
        group.push ⟨grant.lsn, group.stop + args.size.toNat⟩ :: older := by
    simp [recordEvent, recordGrant, hnew, hgroups, AllocGrant.entry, AllocGrant.stop, hlen, hstop]
  have hargs : ArgsValid grant.lsn grant.logId grant.scnVal args.size.toNat :=
    ⟨heffect.lsnIsValid (Nat.zero_le _), scnIsValid_of_le (by omega), hsize,
      ne_obInvalidLogId (by omega)⟩
  have hprogram : programAfter (.allocLsnScn args updates (.granted grant)) =
      appendToGroupLog grant.lsn grant.logId grant.scnVal args.size.toNat := by
    simp [programAfter_granted updates heffect, submitLog, hnew, hpad]
  have hgroupId := hid.trans hnumbered.1.symm
  obtain ⟨clock, hshows⟩ := hinv.clock
  obtain ⟨clock', -, hshows'⟩ := hshows.step (hstep.mono fun _ _ hadmits => hadmits.2.2)
  refine ⟨hinv.layout_inv.step (hstep.mono fun _ _ hadmits => hadmits.2.1),
    ⟨clock', hshows'⟩, hinv.logId_nonneg, hinv.start_id, ?_, ?_, ?_, ?_, ?_, ?_⟩
  · simp only [allocate, hlayout, hnextId]
    exact hnumbered
  · intro id hid
    apply hinv.fresh
    simp only [allocate, hlayout, forall_mem_cons] at hid
    rw [hgroups, forall_mem_cons]
    exact hid
  · intro other hmem
    simp only [allocate, hlayout, owed_cons, hprogram, paid_appendToGroupLog hargs] at hmem ⊢
    rcases mem_cons.mp hmem with rfl | hmem
    · rw [if_pos (show grant.logId = (group.push _).logId from hgroupId)]
      exact (hinv.tasks group hmemGroup).push hopen hlong _ _
    · have hother := hnumbered.2.bounds_of_mem hmem
      rw [if_neg (by omega), Owed.zero_add]
      exact (hinv.tasks other (by rw [hgroups]; simp [hmem])).closed_mono (hclosed _)
  · intro action haction
    rcases waiting_cons.mp haction with hmine | hwaiting
    · rw [hprogram] at hmine
      refine supported_appendToGroupLog hargs ?_ hmine
      simp only [allocate, hlayout]
      exact ⟨_, mem_cons_self, hgroupId.symm⟩
    · obtain ⟨hfail, hgroup⟩ := hinv.supported action hwaiting
      refine ⟨hfail, fun id htarget => ?_⟩
      obtain ⟨other, hmem, rfl, hfits⟩ := hgroup id htarget
      simp only [allocate, hlayout]
      rw [hgroups] at hmem
      rcases mem_cons.mp hmem with rfl | hmem
      · exact ⟨_, mem_cons_self, rfl, hfits.push hopen _⟩
      · exact ⟨other, mem_cons_of_mem _ hmem, rfl, hfits.closed_mono (hclosed _)⟩
  · intro other hmem lsn hlow hhigh
    simp only [allocate, hlayout] at hmem
    rcases mem_cons.mp hmem with rfl | hmem
    · by_cases hbefore : lsn < group.stop
      · exact (hinv.covered group hmemGroup).allocate lsn hlow hbefore
      refine .inr ⟨⟨grant.lsn, grant.lsn + args.size.toNat⟩,
        waiting_cons.mpr (.inl ?_), by simp only; omega, ?_⟩
      · rw [hprogram, appendToGroupLog_eq hargs]
        simp [GroupExtent.push, hgroupId]
      · simp only [GroupExtent.push] at hhigh ⊢
        omega
    · exact (hinv.covered other (by rw [hgroups]; simp [hmem])).allocate lsn hlow hhigh
  · intro program hmem
    rcases mem_cons.mp hmem with rfl | hmem
    · rw [hprogram]
      exact selfContained_appendToGroupLog hargs _
    · exact hinv.fills_first program hmem

end

end

theorem SubmitInv.allocate (hinv : SubmitInv logId startLsn system)
    (hstep : AllocatorStep SubmitAdmitted system.allocator event next) :
    SubmitInv logId startLsn (system.allocate event next) := by
  obtain ⟨clock, hshows⟩ := hinv.clock
  rcases idle_or_grant hshows hstep with ⟨args, updates, grant, rfl⟩ | ⟨hlayout, heffect⟩
  · have heffect := grantEffect_of_step hshows hstep
    cases hpad : grant.needGenPaddingEntry with
    | true => exact hinv.padded hstep heffect hpad
    | false =>
      cases hnew : grant.isNewGroupLog with
      | true => exact hinv.newGroup hstep heffect hnew hpad
      | false => exact hinv.append hstep heffect hnew
  · exact hinv.idle hstep hlayout heffect

end

/-! Runs. -/

variable {logId : Int} {startLsn : Nat}

theorem SubmitInv.start {allocator : LSNAllocator}
    (hstart : Started logId scn startLsn allocator)
    (hroom : TailRoom startLsn) (hnonneg : 0 ≤ logId) :
    SubmitInv logId startLsn (.start allocator) := by
  have hshows := Shows.start hstart
  refine ⟨.start hstart hroom, ⟨_, hshows⟩, hnonneg, ?_, hshows.log_id.symm,
    fun _ _ => rfl, ?_, ?_, ?_, ?_⟩
  · simp only [SubmitSystem.start]
    rw [hshows.log_id]
  all_goals simp [SubmitSystem.start, layout, Waiting]

theorem onTask_preSubmit {action : TaskAction} {task next : LogTask}
    (htask : action.onTask task = some next) : next.preSubmit = task.preSubmit := by
  have hfreeze : ∀ (task : LogTask) endLsn,
      (task.tryFreeze endLsn).2.preSubmit = task.preSubmit := by
    intro task endLsn
    rcases task.tryFreeze_cases endLsn with heq | ⟨-, -, -, -, heq⟩ <;> rw [heq]
  cases action with
  | freezePrevLog nextLogId lsn =>
    simp only [onTask] at htask
    split at htask <;> cases htask
    · exact hfreeze task lsn
    · rfl
  | initGroup =>
    cases hvalid : task.isValid with
    | true => simp [onTask, LogTask.setInitialHeaderInfo, hvalid] at htask
    | false =>
      simp only [onTask, LogTask.setInitialHeaderInfo, hvalid,
        Bool.false_eq_true, if_false, Option.some.injEq] at htask
      subst htask
      unfold LogTask.tryFreezeByMyself
      split
      · rfl
      · rw [hfreeze]
        rfl
  | setSubmitLogExist logId =>
    simp only [onTask] at htask
    split at htask
    · rename_i heq
      cases htask
      simp only [LogTask.setSubmitLogExist, Prod.mk.injEq] at heq
      rw [← heq.2]
    · simp at htask
  | freezeLastLogTask logId expectedEndLsn =>
    simp only [onTask] at htask
    repeat' split at htask
    · cases htask
      rfl
    · simp at htask
    · cases htask
      exact hfreeze task expectedEndLsn
  | fail => simp [onTask] at htask
  | incUpdateMaxScn logId scn | updateDataLen logId logEntrySize | fill bytes
  | ref =>
    cases htask
    rfl

theorem act_preSubmit (system : SubmitSystem) (index : Nat) (action : TaskAction)
    (rest : List TaskAction) (id : Int) :
    ((system.act index action rest).tasks id).preSubmit = (system.tasks id).preSubmit := by
  unfold SubmitSystem.act perform
  cases htarget : action.target system.startLogId with
  | none => cases action <;> rfl
  | some target =>
    simp only
    cases htask : action.onTask (system.tasks target) with
    | none => rfl
    | some next =>
      simp only [setTask]
      split
      · rename_i heq
        rw [onTask_preSubmit htask, heq]
      · rfl

/-- The bit records the one call that has returned true. -/
def PreSubmitCounted (events : List SubmitEvent) (system : SubmitSystem) : Prop :=
  ∀ id, events.count (.tryPreSubmit id true) = (system.tasks id).preSubmit.toNat

variable {events : List SubmitEvent}

theorem PreSubmitCounted.step {event : SubmitEvent} {system next : SubmitSystem}
    (hcounted : PreSubmitCounted events system) (hstep : SubmitStep system event next) :
    PreSubmitCounted (events ++ [event]) next := by
  intro id
  have hbefore := hcounted id
  rw [count_append, hbefore]
  cases hstep with
  | allocator => simp [allocate]
  | @act index action rest _ =>
    rw [act_preSubmit]
    simp
  | tryPreSubmit logId =>
    by_cases hsame : id = logId
    · subst hsame
      unfold LogTask.tryPreSubmit
      simp only [setTask, if_true]
      split
      · cases (system.tasks id).preSubmit <;> simp
      · simp
    have hother : ∀ submitted,
        [SubmitEvent.tryPreSubmit logId submitted].count (.tryPreSubmit id true) = 0 := by
      intro submitted
      rw [count_eq_zero]
      simp [hsame]
    rw [hother]
    simp [setTask, hsame]

/-- The group whose submission an action is a part of. -/
def TaskAction.submits : TaskAction → Option Int
  | .initGroup info => some info.logId
  | .incUpdateMaxScn logId _ => some logId
  | .updateDataLen logId _ => some logId
  | .ref logId _ => some logId
  | .setSubmitLogExist logId => some logId
  | _ => none

/-- What submission can rely on after a run. -/
structure SubmitSound (system : SubmitSystem) (events : List SubmitEvent) :
    Prop where
  once : ∀ logId, events.count (.tryPreSubmit logId true) ≤ 1
  body_filled : ∀ logId, (system.tasks logId).tryPreSubmit.1 = true →
    ∃ group ∈ layout system.history, group.logId = logId ∧
      (system.tasks logId).header.beginLsn = group.start ∧
      (system.tasks logId).header.endLsn = group.stop ∧
      ∀ lsn, group.start + logGroupEntryHeaderSize ≤ lsn → lsn < group.stop →
        system.filled lsn = true
  all_counted : ∀ logId, (system.tasks logId).isFreezed = true →
    (∀ program ∈ system.pool, ∀ action ∈ program, action.submits ≠ some logId) →
      (system.tasks logId).refCnt = 0 ∧ ((system.tasks logId).tryPreSubmit.1 = true ∨
          .tryPreSubmit logId true ∈ events)

variable {system : SubmitSystem}

theorem SubmitInv.group_of_frozen
    (hinv : SubmitInv logId startLsn system) {id : Int}
    (hfreezed : (system.tasks id).isFreezed = true) :
    ∃ group ∈ layout system.history, group.logId = id := by
  by_contra hnone
  have hreset : system.tasks id = .reset :=
    hinv.fresh id fun group hmem heq => hnone ⟨group, hmem, heq⟩
  rw [hreset] at hfreezed
  exact absurd hfreezed (by decide)

theorem SubmitInv.body_filled
    (hinv : SubmitInv logId startLsn system) (hmem : group ∈ layout system.history)
    (hfreezed : (system.tasks group.logId).isFreezed = true)
    (hzero : (system.tasks group.logId).refCnt = 0)
    (hlow : group.start + logGroupEntryHeaderSize ≤ lsn) (hhigh : lsn < group.stop) :
    system.filled lsn = true := by
  have hbalance := (hinv.tasks group hmem).ref_balance
  rw [if_pos hfreezed, hzero] at hbalance
  have hnothing : pending (refWeight group.logId) system.pool = 0 := by
    simp only [owed] at hbalance
    omega
  rcases hinv.covered group hmem lsn hlow hhigh with hdone | ⟨bytes, hwaiting, hfrom, hto⟩
  · exact hdone
  have hle : refWeight group.logId (.ref group.logId bytes) ≤
      pending (refWeight group.logId) system.pool := weight_le_pending hwaiting
  simp only [refWeight, if_true] at hle
  omega

theorem SubmitInv.refCnt_eq_zero
    (hinv : SubmitInv logId startLsn system) (hmem : group ∈ layout system.history)
    (hfreezed : (system.tasks group.logId).isFreezed = true)
    (hfinished : ∀ program ∈ system.pool, ∀ action ∈ program, action.submits ≠ some group.logId) :
    (system.tasks group.logId).refCnt = 0 := by
  have hbalance := (hinv.tasks group hmem).ref_balance
  have hnothing : pending (refWeight group.logId) system.pool = 0 := by
    apply pending_eq_zero
    rintro action ⟨program, hprogram, haction⟩
    have hother := hfinished program hprogram action haction
    cases action <;> simp_all [submits, refWeight]
  simp only [if_pos hfreezed, owed, hnothing] at hbalance
  omega

theorem SubmitInv.sound (hinv : SubmitInv logId startLsn system)
    (hcounted : PreSubmitCounted events system) : SubmitSound system events := by
  constructor
  · intro id
    rw [hcounted id]
    exact Bool.toNat_le _
  · intro id hsubmit
    unfold LogTask.tryPreSubmit at hsubmit
    split at hsubmit
    · rename_i hready
      obtain ⟨group, hmem, rfl⟩ := hinv.group_of_frozen hready.1
      have htask := hinv.tasks group hmem
      obtain ⟨hvalid, hend⟩ := htask.frozen hready.1
      exact ⟨group, hmem, rfl, htask.begin_eq hvalid, (htask.end_eq hend).2,
        fun lsn hlow hhigh => hinv.body_filled hmem hready.1 hready.2 hlow hhigh⟩
    · simp at hsubmit
  · intro id hfreezed hfinished
    obtain ⟨group, hmem, rfl⟩ := hinv.group_of_frozen hfreezed
    have hzero := hinv.refCnt_eq_zero hmem hfreezed hfinished
    refine ⟨hzero, ?_⟩
    have hcount := hcounted group.logId
    cases hbit : (system.tasks group.logId).preSubmit with
    | false => exact .inl (by simp [LogTask.tryPreSubmit, hfreezed, hzero, hbit])
    | true =>
      rw [hbit, Bool.toNat_true] at hcount
      exact .inr (count_pos_iff.mp (by omega))

/-- In every interleaving of submitters and freezers, a group is submitted at
most once and only when its body is complete, and it can be submitted as soon
as it is frozen and its submitters have finished. -/
theorem submit_run_sound {logId : Int} {scn startLsn : Nat} {allocator : LSNAllocator}
    {events : List SubmitEvent} {system : SubmitSystem}
    (hstart : Started logId scn startLsn allocator) (hroom : TailRoom startLsn) (hlogId : 0 ≤ logId)
    (hrun : Execution SubmitStep (.start allocator) events system) :
    SubmitSound system events := by
  have hboth : SubmitInv logId startLsn system ∧ PreSubmitCounted events system := by
    refine hrun.history_invariant
      (P := fun events system =>
        SubmitInv logId startLsn system ∧ PreSubmitCounted events system)
      ⟨.start hstart hroom hlogId, fun _ => rfl⟩ ?_
    rintro events event system next ⟨hinv, hcounted⟩ hstep
    refine ⟨?_, hcounted.step hstep⟩
    cases hstep with
    | allocator hstep => exact hinv.allocate hstep
    | act htake => exact hinv.act htake
    | tryPreSubmit id => exact hinv.tryPreSubmit id
  exact hboth.1.sound hboth.2

/-- The thread at `index` does its next `steps` actions. -/
def SubmitSystem.runThread (system : SubmitSystem) (index : Nat) : Nat → SubmitSystem
  | 0 => system
  | steps + 1 =>
    match system.pool[index]? with
    | some (action :: rest) => (system.act index action rest).runThread index steps
    | _ => system

theorem execution_runThread {first system : SubmitSystem}
    (hrun : Execution SubmitStep first events system) (index steps : Nat) :
    ∃ more, Execution SubmitStep first more (system.runThread index steps) := by
  induction steps generalizing system events with
  | zero => exact ⟨events, hrun⟩
  | succ steps ih =>
    unfold runThread
    split
    · rename_i action rest htake
      exact ih (hrun.snoc (.act htake))
    · exact ⟨events, hrun⟩

/-- One log of 68 bytes, submitted, frozen and ready. -/
def oneLogSystem : SubmitSystem :=
  let allocator : LSNAllocator := ⟨⟨false, 1, 4, 148⟩, 0, 1, true⟩
  let granted := (SubmitSystem.start (reset.init 0 1 0).2).allocate
    (.allocLsnScn ⟨5, 100, 10, 1000⟩ 0 (.granted ⟨0, 1, 5, true, false, 0⟩)) allocator
  ((granted.runThread 0 6).allocate (.tryFreeze allocator.tryFreeze.1)
    allocator.tryFreeze.2).runThread 0 1

theorem oneLogSystem_reached : ∃ events,
    Execution SubmitStep (.start (reset.init 0 1 0).2) events
      oneLogSystem := by
  let start := SubmitSystem.start (reset.init 0 1 0).2
  let args : AllocArgs := ⟨5, 100, 10, 1000⟩
  let allocator : LSNAllocator := ⟨⟨false, 1, 4, 148⟩, 0, 1, true⟩
  have hsize : args.size ≤ logEntryHeaderSize + maxLogBodySize := by decide
  have hgrant : AllocatorStep SubmitAdmitted start.allocator
      (.allocLsnScn args 0 (.granted ⟨0, 1, 5, true, false, 0⟩)) allocator :=
    .allocLsnScn ⟨by decide, ⟨hsize, by decide⟩, by unfold ScnAdmitted; decide⟩
      (by decide)
  obtain ⟨events, hfilled⟩ :=
    execution_runThread (Execution.refl.snoc (.allocator hgrant)) 0 6
  exact execution_runThread (hfilled.snoc (.allocator (.tryFreeze allocator))) 0 1

/-- Two logs of one group: the second submitter comes while the first one has only made the
group, and the freezer while both are at work. -/
def twoLogSystem : SubmitSystem :=
  let first : LSNAllocator := ⟨⟨false, 1, 4, 148⟩, 0, 1, true⟩
  let second : LSNAllocator := ⟨⟨false, 1, 5, 208⟩, 0, 1, true⟩
  let made := ((SubmitSystem.start (reset.init 0 1 0).2).allocate
    (.allocLsnScn ⟨5, 100, 10, 1000⟩ 0 (.granted ⟨0, 1, 5, true, false, 0⟩)) first).runThread 0 2
  let joined := (made.allocate
    (.allocLsnScn ⟨6, 60, 10, 1000⟩ 0 (.granted ⟨148, 1, 6, false, false, 0⟩)) second).runThread 0 2
  (((joined.allocate (.tryFreeze second.tryFreeze.1) second.tryFreeze.2).runThread 0 1).runThread
    2 4).runThread 1 4

theorem twoLogSystem_reached : ∃ events,
    Execution SubmitStep (.start (reset.init 0 1 0).2) events twoLogSystem := by
  let second : LSNAllocator := ⟨⟨false, 1, 5, 208⟩, 0, 1, true⟩
  have hfirst : AllocatorStep SubmitAdmitted (SubmitSystem.start (reset.init 0 1 0).2).allocator
      (.allocLsnScn ⟨5, 100, 10, 1000⟩ 0 (.granted ⟨0, 1, 5, true, false, 0⟩))
      ⟨⟨false, 1, 4, 148⟩, 0, 1, true⟩ :=
    .allocLsnScn ⟨by decide, ⟨by unfold SizeAdmitted; decide, by decide⟩,
      by unfold ScnAdmitted; decide⟩ (by decide)
  have hsecond : AllocatorStep SubmitAdmitted ⟨⟨false, 1, 4, 148⟩, 0, 1, true⟩
      (.allocLsnScn ⟨6, 60, 10, 1000⟩ 0 (.granted ⟨148, 1, 6, false, false, 0⟩)) second :=
    .allocLsnScn ⟨by decide, ⟨by unfold SizeAdmitted; decide, by decide⟩,
      by unfold ScnAdmitted; decide⟩ (by decide)
  obtain ⟨_, hmade⟩ := execution_runThread (Execution.refl.snoc (.allocator hfirst)) 0 2
  obtain ⟨_, hjoined⟩ := execution_runThread (hmade.snoc (.allocator hsecond)) 0 2
  obtain ⟨_, hfrozen⟩ :=
    execution_runThread (hjoined.snoc (.allocator (.tryFreeze second))) 0 1
  obtain ⟨_, hfilled⟩ := execution_runThread hfrozen 2 4
  exact execution_runThread hfilled 1 4

/-- A group is submitted after a run. -/
theorem submit_run_sound_two_logs : ∃ allocator events system,
      Started 0 1 0 allocator ∧ TailRoom 0 ∧
      Execution SubmitStep (.start allocator) events system ∧
      (system.tasks 1).tryPreSubmit.1 = true ∧ SubmitSound system events := by
  obtain ⟨events, hrun⟩ := twoLogSystem_reached
  have hstart : Started 0 1 0 (reset.init 0 1 0).2 :=
    ⟨by decide, by decide⟩
  exact ⟨_, events, _, hstart, .inl rfl, hrun, by decide,
    submit_run_sound hstart (.inl rfl) (by decide) hrun⟩

/-- The header of the group is filled only after `try_pre_submit`, so its bytes
are still missing. -/
theorem submit_run_header_missing : ∃ allocator events system,
      Started 0 1 0 allocator ∧ TailRoom 0 ∧
      Execution SubmitStep (.start allocator) events system ∧
      (system.tasks 1).tryPreSubmit.1 = true ∧
      (system.tasks 1).header.beginLsn = 0 ∧
      (system.tasks 1).header.endLsn = 148 ∧ system.filled 0 = false := by
  obtain ⟨events, hrun⟩ := oneLogSystem_reached
  exact ⟨_, events, _, ⟨by decide, by decide⟩, .inl rfl, hrun, by decide, by decide,
    by decide, by decide⟩

end SeekDB
