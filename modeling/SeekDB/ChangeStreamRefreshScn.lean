/-
How the dispatcher and the workers carry the refresh point: whatever they raise
`refresh_scn_` to, or persist, is the version of a transaction that is applied.
What else makes a refresh point safe is left to who raises it from outside.
-/
import SeekDB.ChangeStreamCommit

universe u

namespace SeekDB.ChangeStream

open List Option PipeInv Pipeline

variable {ρ : Type u}

/-- `safe scn n`: transactions of version at most `scn` are among the first `n` entries
of the ring, or `old`, now and in the future. -/
structure RefreshPoint (ring : List (TxInfo ρ)) (old : TxInfo ρ → Prop) (safe : Nat → Nat → Prop) :
    Prop where
  mono : ∀ {scn n m : Nat}, n ≤ m → safe scn n → safe scn m
  batch : ∀ {scn start : Nat} {txs : List (TxInfo ρ)} {tx : TxInfo ρ},
    txs <+: ring.drop start → tx ∈ txs → scn ≤ tx.commitVersion →
    safe scn (start + txs.length)
  old : ∀ {scn n d : Nat} {tx : TxInfo ρ}, safe scn n → n ≤ d → ring[d]? = some tx →
    tx.commitVersion ≤ scn → old tx

/-- `refresh_scn_` of a batch is at most the version of one of its transactions. -/
def Bounded (txs : List (TxInfo ρ)) (scn : Nat) : Prop :=
  txs = [] ∧ scn = 0 ∨ ∃ tx ∈ txs, scn ≤ tx.commitVersion

namespace Pipeline

/-- The batch the dispatcher is building. -/
def building (s : Pipeline ρ) : Option (Building ρ) :=
  match s.thread with
  | .aggregate ctx => some ctx
  | .skip ctx => some ctx
  | .skipPop ctx => some ctx
  | .prepare ctx => some ctx
  | _ => none

end Pipeline

/-- The fetcher has no part in the step. -/
def PipeEvent.isInternal : PipeEvent ρ → Bool
  | .push _ => false
  | .updateRefreshScn _ => false
  | _ => true

/-- The ring is kept; only popping and applying go on. -/
structure Pipeline.Onward (s s' : Pipeline ρ) : Prop where
  ring : s'.ring = s.ring
  beginSn : s.beginSn ≤ s'.beginSn
  applied : s.applied.length ≤ s'.applied.length

theorem Pipeline.Onward.pop (s : Pipeline ρ) : s.Onward s.pop := by
  unfold Pipeline.pop
  split_ifs
  · exact ⟨rfl, Nat.le_succ _, Nat.le_refl _⟩
  · exact ⟨rfl, Nat.le_refl _, Nat.le_refl _⟩

theorem Pipeline.Onward.aggregate (s : Pipeline ρ) (ctx : Building ρ) (ok : Bool) :
    s.Onward (s.aggregate ctx ok) := by
  unfold Pipeline.aggregate
  by_cases hfull : aggregateRowThreshold ≤ ctx.rowCount
  · rw [if_pos hfull]
    exact ⟨rfl, Nat.le_refl _, Nat.le_refl _⟩
  by_cases hbelow : s.dispatchSn < s.beginSn
  · rw [if_neg hfull, if_pos hbelow]
    exact ⟨rfl, Nat.le_refl _, Nat.le_refl _⟩
  cases s.ring[s.dispatchSn]? with
  | none =>
    simp only
    split_ifs <;> exact ⟨rfl, Nat.le_refl _, Nat.le_refl _⟩
  | some tx =>
    simp only
    split_ifs <;> exact ⟨rfl, Nat.le_refl _, Nat.le_refl _⟩

theorem Pipeline.Onward.dispatch (s : Pipeline ρ) (executorCount : Nat) (ok : Bool) :
    s.Onward (s.dispatch executorCount ok) := by
  unfold Pipeline.dispatch
  cases s.thread with
  | aggregate ctx => exact .aggregate s ctx ok
  | skip =>
    simp only [Pipeline.skip]
    split_ifs
    · refine ⟨rfl, Nat.le_refl _, ?_⟩
      rw [length_append]
      exact Nat.le_add_right _ _
    · exact ⟨rfl, Nat.le_refl _, Nat.le_refl _⟩
  | skipPop => exact { Onward.pop s with }
  | prepare =>
    split_ifs <;> exact ⟨rfl, Nat.le_refl _, Nat.le_refl _⟩
  | finishUnpushed b =>
    simp only [Pipeline.finishUnpushed]
    cases s.batches[b]? with
    | none | some => exact ⟨rfl, Nat.le_refl _, Nat.le_refl _⟩
  | top | recoverWait | check | push =>
    simp only
    split_ifs <;> exact ⟨rfl, Nat.le_refl _, Nat.le_refl _⟩
  | _ => exact ⟨rfl, Nat.le_refl _, Nat.le_refl _⟩

variable {s' : Pipeline ρ}

/-- A step of the dispatcher or a worker leaves the ring alone, apart from popping. -/
theorem Pipeline.Onward.step {s : Pipeline ρ} {executorCount : Nat} {event : PipeEvent ρ}
    (hevent : event.isInternal = true) (hstep : s.step executorCount event = some s') :
    s.Onward s' := by
  have hset : ∀ b (batch : Batch ρ), s.Onward { s with batches := s.batches.set b batch } :=
    fun _ _ => ⟨rfl, Nat.le_refl _, Nat.le_refl _⟩
  cases event with
  | push | updateRefreshScn => cases hevent
  | incEpoch =>
    cases hstep
    exact ⟨rfl, Nat.le_refl _, Nat.le_refl _⟩
  | dispatch ok =>
    cases hstep
    exact .dispatch s executorCount ok
  | startSubTask b i pluginFails | dropSubTask b i | markSubTask b i | finishSubTask b i =>
    obtain ⟨batch, hb, -, rfl⟩ := moveSubTask_eq_some hstep
    exact hset b _
  | finishBatch =>
    obtain ⟨batch, phase, effect, -, -, rfl⟩ := finishBatch_eq_some hstep
    cases effect with
    | pop => exact { Onward.pop s with }
    | commit =>
      refine ⟨rfl, Nat.le_refl _, ?_⟩
      exact (Nat.le_add_right _ _).trans_eq length_append.symm
    | _ => exact ⟨rfl, Nat.le_refl _, Nat.le_refl _⟩

structure RefreshInv (safe : Nat → Nat → Prop) (old : TxInfo ρ → Prop) (s : Pipeline ρ) :
    Prop where
  refreshScn : safe s.refreshScn s.applied.length
  persistedScn : safe s.persistedScn s.applied.length
  bounded : ∀ batch ∈ s.batches, Bounded batch.txList batch.refreshScn
  committed : ∀ batch ∈ s.batches, batch.committed = true → safe batch.refreshScn s.applied.length
  building : ∀ ctx, s.building = some ctx → Bounded ctx.txList ctx.refreshScn
  skip : ∀ ctx tx, s.thread = .skip ctx → s.ring[s.dispatchSn]? = some tx → old tx
  skipped : ∀ entry ∈ s.applied, entry.2 = none → old entry.1

variable {ctx : Building ρ}

namespace RefreshInv

variable {safe : Nat → Nat → Prop} {old : TxInfo ρ → Prop} {s : Pipeline ρ} {lo b : Nat}
  {batch batch' : Batch ρ}

theorem transfer (h : RefreshInv safe old s)
    (hscn : s'.refreshScn = s.refreshScn ∨ s'.refreshScn = s.persistedScn)
    (hpersisted : s'.persistedScn = s.persistedScn) (happlied : s'.applied = s.applied)
    (hbatches : ∀ batch' ∈ s'.batches, ∃ batch ∈ s.batches, batch'.txList = batch.txList ∧
      batch'.refreshScn = batch.refreshScn ∧ batch'.committed = batch.committed)
    (hbuilding : ∀ ctx, s'.building = some ctx → Bounded ctx.txList ctx.refreshScn)
    (hskip : ∀ ctx tx, s'.thread = .skip ctx → s'.ring[s'.dispatchSn]? = some tx → old tx) :
    RefreshInv safe old s' where
  refreshScn := by
    rw [happlied]
    rcases hscn with hscn | hscn
    · rw [hscn]
      exact h.refreshScn
    · rw [hscn]
      exact h.persistedScn
  persistedScn := by
    rw [happlied, hpersisted]
    exact h.persistedScn
  bounded := by
    intro batch' hbatch'
    obtain ⟨batch, hbatch, htxs, hscn', -⟩ := hbatches batch' hbatch'
    rw [htxs, hscn']
    exact h.bounded batch hbatch
  committed := by
    intro batch' hbatch' hcommitted
    obtain ⟨batch, hbatch, -, hscn', hsame⟩ := hbatches batch' hbatch'
    rw [happlied, hscn']
    exact h.committed batch hbatch (hsame ▸ hcommitted)
  building := hbuilding
  skip := hskip
  skipped := by
    rw [happlied]
    exact h.skipped

theorem weaken {safe' : Nat → Nat → Prop} (h : RefreshInv safe old s)
    (himp : ∀ scn n, safe scn n → safe' scn n) : RefreshInv safe' old s :=
  { h with
    refreshScn := himp _ _ h.refreshScn
    persistedScn := himp _ _ h.persistedScn
    committed := fun batch hbatch hcommitted => himp _ _ (h.committed batch hbatch hcommitted) }

theorem same_batches (batches : List (Batch ρ)) :
    ∀ batch' ∈ batches, ∃ batch ∈ batches, batch'.txList = batch.txList ∧
      batch'.refreshScn = batch.refreshScn ∧ batch'.committed = batch.committed :=
  fun batch hbatch => ⟨batch, hbatch, rfl, rfl, rfl⟩

theorem set_batches (hb : s.batches[b]? = some batch) (htxs : batch'.txList = batch.txList)
    (hscn : batch'.refreshScn = batch.refreshScn)
    (hcommitted : batch'.committed = batch.committed) :
    ∀ other' ∈ s.batches.set b batch', ∃ other ∈ s.batches, other'.txList = other.txList ∧
      other'.refreshScn = other.refreshScn ∧ other'.committed = other.committed := by
  intro other hother
  rcases mem_or_eq_of_mem_set hother with hmem | rfl
  · exact ⟨other, hmem, rfl, rfl, rfl⟩
  · exact ⟨batch, mem_of_getElem? hb, htxs, hscn, hcommitted⟩

section

variable (h : RefreshInv safe old s)

include h

theorem setBatch (hb : s.batches[b]? = some batch)
    (htxs : batch'.txList = batch.txList) (hscn : batch'.refreshScn = batch.refreshScn)
    (hcommitted : batch'.committed = batch.committed) :
    RefreshInv safe old { s with batches := s.batches.set b batch' } :=
  h.transfer (.inl rfl) rfl rfl (set_batches hb htxs hscn hcommitted) h.building h.skip

/-- A step after which nothing is being built. -/
theorem idle (hscn : s'.refreshScn = s.refreshScn ∨ s'.refreshScn = s.persistedScn)
    (hpersisted : s'.persistedScn = s.persistedScn) (happlied : s'.applied = s.applied)
    (hbatches : ∀ batch' ∈ s'.batches, ∃ batch ∈ s.batches, batch'.txList = batch.txList ∧
      batch'.refreshScn = batch.refreshScn ∧ batch'.committed = batch.committed)
    (hbuilding : s'.building = none) : RefreshInv safe old s' := by
  refine h.transfer hscn hpersisted happlied hbatches ?_ ?_
  · intro ctx hctx
    exact absurd (hbuilding.symm.trans hctx) (by simp)
  · intro ctx tx hthread
    simp [Pipeline.building, hthread] at hbuilding

theorem setThread {thread : DispatcherPhase ρ} {dispatchSn : Nat}
    (hbuilding : Pipeline.building { s with thread := thread } = none) :
    RefreshInv safe old { s with dispatchSn := dispatchSn, thread := thread } :=
  h.idle (.inl rfl) rfl rfl (same_batches _) hbuilding

theorem close (hs : s.building = some ctx) :
    RefreshInv safe old (s.close ctx) := by
  rw [Pipeline.close]
  split_ifs
  · exact h.setThread rfl
  refine h.transfer (.inl rfl) rfl rfl (same_batches _) ?_ ?_
  · intro ctx' hctx
    cases hctx
    exact h.building ctx hs
  · intro ctx' tx hthread
    cases hthread

theorem rewind (ctx : Building ρ) :
    RefreshInv safe old (s.rewind ctx) :=
  h.setThread rfl

end

theorem bounded_snoc {txs : List (TxInfo ρ)} {scn : Nat} (h : Bounded txs scn) (tx : TxInfo ρ) :
    Bounded (txs ++ [tx]) (max scn tx.commitVersion) := by
  right
  rcases Nat.le_total scn tx.commitVersion with hle | hle
  · exact ⟨tx, by simp, by rw [Nat.max_eq_right hle]⟩
  rw [Nat.max_eq_left hle]
  rcases h with ⟨-, rfl⟩ | ⟨other, hother, hscn⟩
  · exact ⟨tx, by simp, Nat.zero_le _⟩
  · exact ⟨other, mem_append_left _ hother, hscn⟩

theorem applied_le_cursor (hinv : PipeInv s lo) : s.applied.length ≤ s.cursor := by
  have hlength := congrArg List.length hinv.applied_eq
  rw [length_map, length_take, Nat.min_eq_left hinv.applied_le_ring] at hlength
  rw [hlength, ← startAt_length]
  unfold committing
  rcases hb : s.batches[lo]? with _ | batch
  · have hmono := hinv.startAt_mono le_rfl hinv.lo_le le_rfl
    rw [hinv.startAt_lo] at hmono
    simp only [map_none, getD_none]
    omega
  have hmono := hinv.startAt_mono (Nat.le_add_right lo 1) (lt_length hb) le_rfl
  have hstop := (hinv.batch lo batch hb).stop_eq le_rfl
  rw [Batch.stop, ← startAt_eq hb, hinv.startAt_lo] at hstop
  simp only [map_some, getD_some]
  split_ifs <;> omega

theorem applied_le_dispatchSn (hinv : PipeInv s lo) (hskipping : s.skipping = 0) :
    s.applied.length ≤ s.dispatchSn := by
  have hcursor := applied_le_cursor hinv
  have hle := hinv.cursor_le_dispatchSn
  omega

section

variable (h : RefreshInv safe old s)

include h

section

variable (hpoint : RefreshPoint s.ring old safe)

include hpoint

theorem aggregate (hinv : PipeInv s lo) (hs : s.thread = .aggregate ctx) (ok : Bool) :
    RefreshInv safe old (s.aggregate ctx ok) := by
  have hbuilding : s.building = some ctx := by simp [Pipeline.building, hs]
  unfold Pipeline.aggregate
  by_cases hfull : aggregateRowThreshold ≤ ctx.rowCount
  · rw [if_pos hfull]
    exact h.close hbuilding
  rw [if_neg hfull]
  by_cases hbelow : s.dispatchSn < s.beginSn
  · rw [if_pos hbelow]
    exact h.rewind ctx
  rw [if_neg hbelow]
  rcases htx : s.ring[s.dispatchSn]? with _ | tx
  · by_cases hwait : ok = true ∧ 0 < s.activeBatchCount
    · simpa only [if_pos hwait] using h
    · simpa only [if_neg hwait] using h.close hbuilding
  simp only
  by_cases hskip : tx.commitVersion ≤ s.refreshScn
  · rw [if_pos hskip]
    refine h.transfer (.inl rfl) rfl rfl (same_batches _) ?_ ?_
    · intro ctx' hctx
      cases hctx
      exact h.building ctx hbuilding
    · intro ctx' tx' _ htx'
      obtain rfl := some_inj.mp (htx.symm.trans htx')
      have hle := applied_le_dispatchSn hinv (by simp [skipping, hs])
      exact hpoint.old h.refreshScn hle htx hskip
  rw [if_neg hskip]
  generalize (if ctx.schemaVersion ≤ 0 then tx.schemaVersion else ctx.schemaVersion) = schema
  by_cases hschema : tx.schemaVersion ≠ schema
  · rw [if_pos hschema]
    exact h.close hbuilding
  split_ifs with hok
  · refine h.transfer (.inl rfl) rfl rfl (same_batches _) ?_ (fun _ _ hthread => by cases hthread)
    intro ctx' hctx
    cases hctx
    exact bounded_snoc (h.building ctx hbuilding) tx
  · exact h.rewind ctx

theorem skipStep (hs : s.thread = .skip ctx) : RefreshInv safe old (s.skip ctx) := by
  have hbuilding : s.building = some ctx := by simp [Pipeline.building, hs]
  rw [Pipeline.skip]
  split_ifs
  · have hle : s.applied.length ≤
        (s.applied ++ (s.ring[s.dispatchSn]?.map fun tx => (tx, none)).toList).length := by
      rw [length_append]
      exact Nat.le_add_right _ _
    exact
      { refreshScn := hpoint.mono hle h.refreshScn
        persistedScn := hpoint.mono hle h.persistedScn
        bounded := h.bounded
        committed := fun batch hbatch hcommitted =>
          hpoint.mono hle (h.committed batch hbatch hcommitted)
        building := by
          intro ctx' hctx
          cases hctx
          exact h.building ctx hbuilding
        skip := fun _ _ hthread => by cases hthread
        skipped := by
          intro entry hentry hnone
          rcases mem_append.mp hentry with hold | hnew
          · exact h.skipped entry hold hnone
          · obtain ⟨tx, htx, rfl⟩ : ∃ tx, s.ring[s.dispatchSn]? = some tx ∧ (tx, none) = entry := by
              simpa using hnew
            exact h.skip ctx tx hs htx }
  · exact h.close hbuilding

theorem dispatch (hinv : PipeInv s lo) (executorCount : Nat) (ok : Bool) :
    RefreshInv safe old (s.dispatch executorCount ok) := by
  have hthread := hinv.thread
  unfold ThreadInv at hthread
  unfold Pipeline.dispatch
  cases hs : s.thread with
  | top =>
    by_cases hchanged : s.dispatcherEpoch ≠ s.epoch
    · simp only [if_pos hchanged]
      exact h.setThread rfl
    simp only [if_neg hchanged]
    split_ifs
    · exact h
    · exact h.setThread rfl
  | recoverWait =>
    simp only
    split_ifs
    · exact h
    · exact h.setThread rfl
  | recoverReload =>
    refine h.idle ?_ rfl rfl (same_batches _) rfl
    cases ok with
    | true => exact .inr rfl
    | false => exact .inl rfl
  | recoverCursor => exact h.setThread rfl
  | recoverEpoch | incEpoch =>
    exact h.idle (.inl rfl) rfl rfl (same_batches _) rfl
  | check =>
    simp only
    split_ifs
    · exact h.setThread rfl
    refine h.transfer (.inl rfl) rfl rfl (same_batches _) ?_
      (fun _ _ hthread => by cases hthread)
    intro ctx hctx
    cases hctx
    exact .inl ⟨rfl, rfl⟩
  | aggregate => exact h.aggregate hpoint hinv hs ok
  | skip => exact h.skipStep hpoint hs
  | skipPop ctx =>
    have hpop : s.pop.refreshScn = s.refreshScn ∧ s.pop.persistedScn = s.persistedScn ∧
        s.pop.applied = s.applied ∧ s.pop.batches = s.batches := by
      unfold Pipeline.pop
      split_ifs <;> exact ⟨rfl, rfl, rfl, rfl⟩
    refine h.transfer (.inl hpop.1) hpop.2.1 hpop.2.2.1 ?_ ?_ (fun _ _ hthread => by cases hthread)
    · change ∀ batch' ∈ s.pop.batches, _
      rw [hpop.2.2.2]
      exact same_batches _
    · intro ctx' hctx
      cases hctx
      have hbounded := h.building ctx (by simp [Pipeline.building, hs])
      split_ifs <;> exact hbounded
  | prepare ctx =>
    have hbounded := h.building ctx (by simp [Pipeline.building, hs])
    simp only
    split_ifs
    · exact
        { h with
          bounded := by
            intro batch hbatch
            rcases mem_append.mp hbatch with hold | hnew
            · exact h.bounded batch hold
            · obtain rfl := mem_singleton.mp hnew
              exact hbounded
          committed := by
            intro batch hbatch hcommitted
            rcases mem_append.mp hbatch with hold | hnew
            · exact h.committed batch hold hcommitted
            · obtain rfl := mem_singleton.mp hnew
              simp [Building.toBatch] at hcommitted
          building := fun _ hctx => by cases hctx
          skip := fun _ _ hthread => by cases hthread }
    · exact h.rewind ctx
  | push =>
    simp only [hs] at hthread
    obtain ⟨batch, hb, -⟩ := hthread
    simp only [hb, modifyBatch, modify_eq_set _ hb]
    split_ifs
    · exact h.setThread rfl
    · exact h.idle (.inl rfl) rfl rfl (set_batches hb rfl rfl rfl) rfl
    · exact h.setThread rfl
  | markUnpushed | decActive =>
    simp only [hs] at hthread
    obtain ⟨batch, hb, -⟩ := hthread
    simp only [modifyBatch, modify_eq_set _ hb]
    exact h.idle (.inl rfl) rfl rfl (set_batches hb rfl rfl rfl) rfl
  | finishUnpushed =>
    simp only [hs] at hthread
    obtain ⟨batch, hb, -⟩ := hthread
    simp only [Pipeline.finishUnpushed, hb, modifyBatch, modify_eq_set _ hb]
    split_ifs <;> exact h.idle (.inl rfl) rfl rfl (set_batches hb rfl rfl rfl) rfl

/-- A batch whose transaction commits has applied everything up to its own end. -/
theorem commit
    (hinv : PipeInv s lo) (hb : s.batches[b]? = some batch) (hphase : batch.phase = .commit) :
    RefreshInv safe old
      { s with
        persistedScn := batch.refreshScn
        applied := s.applied ++ batch.txList.map fun tx => (tx, some b)
        batches := s.batches.set b { batch with phase := .updateScn, committed := true } } := by
  have hbatch := hinv.batch b batch hb
  obtain ⟨rfl, hsn, -⟩ := hinv.front_spec hb (hphase ▸ trivial)
  have huncommitted : batch.committed = false := by
    rw [← Bool.not_eq_true]
    intro hcommitted
    have hreleasing := hbatch.committed_imp le_rfl hcommitted
    rw [hphase] at hreleasing
    exact hreleasing
  have hlength : s.applied.length = batch.batchSn := by
    have hlength := congrArg List.length hinv.applied_eq
    rw [length_map, length_take, Nat.min_eq_left hinv.applied_le_ring] at hlength
    simp only [hlength, committing, hb, huncommitted, map_some, getD_some,
      Bool.false_eq_true, if_false, hsn, Nat.add_zero]
  have hle : s.applied.length ≤ (s.applied ++ batch.txList.map fun tx => (tx, some b)).length := by
    rw [length_append]
    exact Nat.le_add_right _ _
  have hsafe : safe batch.refreshScn
      (s.applied ++ batch.txList.map fun tx => (tx, some b)).length := by
    rw [length_append, length_map, hlength]
    rcases h.bounded batch (mem_of_getElem? hb) with ⟨hnil, -⟩ | ⟨tx, htx, hscn⟩
    · have hpos := hbatch.txList_pos
      rw [hnil] at hpos
      exact absurd hpos (Nat.lt_irrefl 0)
    · exact hpoint.batch hbatch.txList_ring htx hscn
  exact
    { h with
      refreshScn := hpoint.mono hle h.refreshScn
      persistedScn := hsafe
      bounded := by
        intro other hother
        rcases mem_or_eq_of_mem_set hother with hmem | rfl
        · exact h.bounded other hmem
        · exact h.bounded batch (mem_of_getElem? hb)
      committed := by
        intro other hother hcommitted
        rcases mem_or_eq_of_mem_set hother with hmem | rfl
        · exact hpoint.mono hle (h.committed other hmem hcommitted)
        · exact hsafe
      skipped := by
        intro entry hentry hnone
        rcases mem_append.mp hentry with hold | hnew
        · exact h.skipped entry hold hnone
        · obtain ⟨tx, -, rfl⟩ := List.mem_map.mp hnew
          simp at hnone }

end

/-- `update_refresh_scn`. -/
theorem raise {scn : Nat} (hscn : safe scn s.applied.length) :
    RefreshInv safe old { s with refreshScn := max s.refreshScn scn } :=
  { h with
    refreshScn := by
      rcases Nat.le_total s.refreshScn scn with hle | hle
      · simpa only [Nat.max_eq_right hle] using hscn
      · simpa only [Nat.max_eq_left hle] using h.refreshScn }

theorem finishBatch (hpoint : RefreshPoint s.ring old safe) (hinv : PipeInv s lo) {ok : Bool}
    (hstep : s.finishBatch b ok = some s') : RefreshInv safe old s' := by
  obtain ⟨batch, phase, effect, hb, hfinish, rfl⟩ := finishBatch_eq_some hstep
  have hbatch := hinv.batch b batch hb
  simp only [modifyBatch]
  cases hfinish with
  | quiet hwaiting hnext hfront heffect =>
    rcases heffect with rfl | rfl
    all_goals
      simp only [Pipeline.apply, modify_eq_set _ hb]
      exact h.transfer (.inl rfl) rfl rfl (set_batches hb rfl rfl (by simp)) h.building h.skip
  | past | empty | advance | decActive =>
    simp only [Pipeline.apply, modify_eq_set _ hb]
    exact h.transfer (.inl rfl) rfl rfl (set_batches hb rfl rfl (by simp)) h.building h.skip
  | commit hphase =>
    have hnew := h.commit hpoint hinv hb hphase
    simp only [Pipeline.apply, modify_eq_set _ hb, decide_true, Bool.or_true]
    exact hnew
  | updateScn hphase =>
    have hcommitted := hbatch.releasing_imp (hphase ▸ trivial)
    have hraised := h.raise (h.committed batch (mem_of_getElem? hb) hcommitted)
    simp only [Pipeline.apply, modify_eq_set _ hb]
    exact hraised.setBatch hb rfl rfl (by simp)
  | pop hphase hmore =>
    have hbegin := (hinv.pop hb hphase hmore).1
    simp only [Pipeline.apply, Pipeline.pop, if_pos hbegin, modify_eq_set _ hb]
    exact h.transfer (.inl rfl) rfl rfl (set_batches hb rfl rfl (by simp)) h.building h.skip

theorem step (hpoint : RefreshPoint s.ring old safe)
    (hinv : PipeInv s lo) {executorCount : Nat} {event : PipeEvent ρ}
    (hevent : event.isInternal = true) (hstep : s.step executorCount event = some s') :
    RefreshInv safe old s' := by
  cases event with
  | push | updateRefreshScn => cases hevent
  | incEpoch =>
    cases hstep
    exact { h with }
  | dispatch ok =>
    cases hstep
    exact h.dispatch hpoint hinv executorCount ok
  | startSubTask | dropSubTask | markSubTask | finishSubTask =>
    obtain ⟨batch, hb, -, rfl⟩ := moveSubTask_eq_some hstep
    exact h.setBatch hb rfl rfl rfl
  | finishBatch => exact h.finishBatch hpoint hinv hstep

end

end RefreshInv

end SeekDB.ChangeStream
