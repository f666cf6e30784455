/-
What the thread that finishes a batch does to the other threads: each of its steps
keeps the invariant of the batches.
-/
import SeekDB.ChangeStreamBatch

universe u

namespace SeekDB.ChangeStream

open List Nat Option Pipeline

variable {ρ : Type u}

namespace PipeInv

variable {s : Pipeline ρ} {lo i j b : Nat} {batch batch' : Batch ρ}

theorem incEpoch (h : PipeInv s lo) : PipeInv { s with epoch := s.epoch + 1 } lo :=
  { h with
    batch := fun i batch hb => { h.batch i batch hb with }
    thread := by
      have hthread := h.thread
      unfold ThreadInv at hthread ⊢
      cases hs : s.thread with
      | recoverWait =>
        simp only [hs] at hthread ⊢
        exact lt_succ_of_lt hthread
      | recoverReload | recoverCursor | recoverEpoch =>
        simp only [hs] at hthread ⊢
        exact ⟨lt_succ_of_lt hthread.1, hthread.2⟩
      | top | check => trivial
      | _ => simpa only [hs] using hthread
    epoch_le := le_succ_of_le h.epoch_le }

/-! ### The first unreleased batch -/

/-- A batch that has its turn is the first unreleased one, and the dispatcher keeps away. -/
theorem front_spec (h : PipeInv s lo) (hb : s.batches[b]? = some batch)
    (hfront : batch.phase.IsFront) :
    b = lo ∧ batch.batchSn = s.nextCommitSn ∧ ¬ s.Resetting ∧ s.skipping = 0 := by
  have hinv := h.batch b batch hb
  have hunsettled : ¬ batch.phase.IsSettled := by
    rintro (hphase | hphase) <;> simp [hphase, BatchPhase.IsFront] at hfront
  have hlo := h.eq_lo hb (h.lo_le_of_not_settled hb hunsettled) (hinv.front hfront)
  have hlt := lt_length hb
  refine ⟨hlo, hinv.front hfront, ?_, ?_⟩
  · intro hreset
    have hthread := h.thread
    simp only [ThreadInv, show s.thread = .recoverEpoch from hreset] at hthread
    omega
  have hthread := h.thread
  unfold ThreadInv at hthread
  unfold skipping
  cases hs : s.thread with
  | skipPop =>
    simp only [hs] at hthread
    omega
  | _ => rfl

theorem appliedBy_append {entries : List (TxInfo ρ × Option Nat)} :
    appliedBy { s with applied := s.applied ++ entries } i =
      s.appliedBy i ++ (entries.filter fun entry => entry.2 = some i).map Prod.fst := by
  simp [appliedBy]

theorem appliedBy_commit {txs : List (TxInfo ρ)} :
    appliedBy { s with applied := s.applied ++ txs.map fun tx => (tx, some b) } i =
      s.appliedBy i ++ if b = i then txs else [] := by
  refine appliedBy_append.trans ?_
  split_ifs with hi <;> simp [hi, List.filter_map, Function.comp_def]

section

variable (h : PipeInv s lo)

include h

section

variable (hb : s.batches[b]? = some batch)

include hb

/-- The commit appends the batch's transactions to what is applied; earlier batches of the
epoch have committed before. -/
theorem commit (hphase : batch.phase = .commit)
    (persistedScn : Nat) :
    PipeInv
      { s with
        persistedScn := persistedScn
        applied := s.applied ++ batch.txList.map fun tx => (tx, some b)
        batches := s.batches.set b { batch with phase := .updateScn, committed := true } } lo := by
  have hinv := h.batch b batch hb
  obtain ⟨rfl, hsn, hreset, -⟩ := h.front_spec hb (hphase ▸ trivial)
  have huncommitted : batch.committed = false := by
    rw [← Bool.not_eq_true]
    intro hcommitted
    have hreleasing := hinv.committed_imp le_rfl hcommitted
    rw [hphase] at hreleasing
    exact hreleasing
  have hsame : (s.batches.set b { batch with phase := .updateScn, committed := true }).map
      Batch.batchSn = s.batches.map Batch.batchSn := batchSn_set hb rfl
  exact
    { h with
      batch := by
        intro i other hget
        rw [getElem?_set_batch hb] at hget
        split_ifs at hget with hi
        · subst hi
          cases hget
          exact
            { hinv with
              appliedBy_eq := by
                simp only [if_true]
                refine (appliedBy_commit (s := s)).trans ?_
                rw [hinv.appliedBy_eq, huncommitted, if_pos rfl]
                rfl
              running_iff := hinv.past_running (by simp [hphase]) (by simp)
              settled := fun hlt => absurd hlt (Nat.lt_irrefl b)
              settled_committed := fun _ _ _ => rfl
              stop_eq := fun hlo => stop_congr (hinv.stop_eq hlo) hsame rfl
              committed_imp := fun _ _ => trivial
              releasing_imp := fun _ => rfl
              popped_le := Nat.zero_le _
              front := fun _ => hsn }
        · refine (h.batch i other hget).transfer rfl ?_ rfl id (startAt_congr hsame rfl) rfl
          refine (appliedBy_commit (s := s)).trans ?_
          rw [if_neg hi, append_nil]
      lo_le := by
        rw [length_set]
        exact h.lo_le
      startAt_lo := startAt_lo_congr h.startAt_lo hsame rfl rfl
      thread := threadInv_set
        (s := { s with
          persistedScn := persistedScn
          applied := s.applied ++ batch.txList.map fun tx => (tx, some b) }) hb
        ⟨rfl, by simp [hphase], by simp [hphase], fun _ => id⟩ h.thread
      active := h.active.trans (countP_set_eq hb (by simp [hphase])).symm
      beginSn_eq := by
        refine h.beginSn_eq.trans ?_
        congr 1
        rw [popping, popping, getElem?_set_batch hb, if_pos rfl, hb]
        simp [hphase, BatchPhase.popped]
      applied_eq := by
        have happlied := h.applied_eq
        simp only [committing, hb, huncommitted, map_some, getD_some,
          Bool.false_eq_true, if_false, Nat.add_zero] at happlied
        rw [committing, getElem?_set_batch hb, if_pos rfl]
        simp only [map_append, happlied, map_some, getD_some, if_true]
        rw [take_add, ← hsn, ← prefix_iff_eq_take.mp hinv.txList_ring, List.map_map]
        exact congrArg _ (List.map_id' _)
      applied_lt := by
        intro entry hentry c hc
        rw [length_set]
        rcases mem_append.mp hentry with hold | hnew
        · exact h.applied_lt entry hold c hc
        · obtain ⟨tx, -, rfl⟩ := List.mem_map.mp hnew
          cases hc
          exact lt_length hb
      ordered := by
        intro i j left right hij hleft hright hepoch hdone
        rw [getElem?_set_batch hb] at hleft hright
        split_ifs at hleft with hi
        · cases hleft
          rfl
        split_ifs at hright with hj
        · subst hj
          cases hright
          -- Earlier batches of the epoch are released, and were committed for that.
          exact (h.batch i left hleft).settled_committed hij
            (hepoch.trans (hinv.epoch_eq le_rfl)) hreset
        · exact h.ordered i j left right hij hleft hright hepoch hdone }

theorem updateScn (hphase : batch.phase = .updateScn) (refreshScn : Nat) :
    PipeInv
      { s with
        refreshScn := refreshScn
        batches := s.batches.set b { batch with phase := .release 0 } } lo := by
  have hinv := h.batch b batch hb
  obtain ⟨hlo, hsn, -⟩ := h.front_spec hb (hphase ▸ trivial)
  have hcommitted : batch.committed = true := hinv.releasing_imp (hphase ▸ trivial)
  have hquiet : PipeInv { s with batches := s.batches.set b { batch with phase := .release 0 } }
      lo := by
    refine h.quiet hb ?_ ?_ (threadInv_set hb
      ⟨rfl, by simp [hphase], by simp [hphase], fun _ => id⟩ h.thread)
    · exact ⟨rfl, rfl, rfl, by simp [hphase, BatchPhase.popped], rfl, by simp [hphase]⟩
    exact
      { hinv with
        running_iff := hinv.past_running (by simp [hphase]) (by simp)
        settled := fun hlt => absurd hlt (by omega)
        committed_imp := fun _ _ => trivial
        releasing_imp := fun _ => hcommitted
        popped_le := Nat.zero_le _
        front := fun _ => hsn }
  exact
    { hquiet with
      batch := fun i other hother => { hquiet.batch i other hother with } }

/-- `release_batch` finds the entries it pops. -/
theorem pop {popped : Nat}
    (hphase : batch.phase = .release popped) (hmore : popped < batch.txList.length) :
    s.beginSn < s.ring.length ∧ PipeInv
        { s with
          beginSn := s.beginSn + 1
          batches := s.batches.set b { batch with phase := .release (popped + 1) } } lo := by
  have hinv := h.batch b batch hb
  obtain ⟨rfl, hsn, -, hskipping⟩ := h.front_spec hb (hphase ▸ trivial)
  have hcommitted : batch.committed = true := hinv.releasing_imp (hphase ▸ trivial)
  have hbegin := h.beginSn_eq
  simp only [popping, hb, hphase, BatchPhase.popped, map_some, getD_some, hskipping] at hbegin
  have hstop := stop_le_ring hinv
  rw [Batch.stop] at hstop
  refine ⟨by omega, h.replace { batch with phase := .release (popped + 1) } hb rfl rfl rfl rfl ?_
    (threadInv_set hb ⟨rfl, by simp [hphase], by simp [hphase], fun _ => id⟩ h.thread)
    (h.active.trans (countP_set_eq hb (by simp [hphase])).symm) ?_⟩
  · exact
      { hinv with
        running_iff := hinv.past_running (by simp [hphase]) (by simp)
        settled := fun hlt => absurd hlt (Nat.lt_irrefl b)
        committed_imp := fun _ _ => trivial
        releasing_imp := fun _ => hcommitted
        popped_le := hmore
        front := fun _ => hsn }
  · rw [popping, getElem?_set_batch hb, if_pos rfl]
    simp only [BatchPhase.popped, map_some, getD_some]
    omega

end

/-- A batch behind the first unreleased one has neither committed nor popped. -/
theorem behind_front (hb : s.batches[i]? = some batch) (hlt : lo < i) :
    ¬ batch.phase.IsFront ∧ batch.committed = false ∧ batch.phase.popped = 0 := by
  have hinv := h.batch i batch hb
  have hfront : ¬ batch.phase.IsFront := fun hfront => by
    have heq := (h.front_spec hb hfront).1
    omega
  refine ⟨hfront, ?_, ?_⟩
  · rw [← Bool.not_eq_true]
    intro hcommitted
    have hreleasing := hinv.committed_imp (Nat.le_of_lt hlt) hcommitted
    cases hphase : batch.phase <;> simp_all [BatchPhase.IsReleasing, BatchPhase.IsFront]
  · cases hphase : batch.phase <;> simp_all [BatchPhase.popped, BatchPhase.IsFront]

/-- `next_commit_sn_` moves past the batch, and the next one is the first unreleased. -/
theorem advance (hb : s.batches[b]? = some batch) {popped : Nat}
    (hphase : batch.phase = .release popped) (hall : batch.txList.length ≤ popped) :
    PipeInv
      { s with
        nextCommitSn := batch.batchSn + batch.txList.length
        batches := s.batches.set b { batch with phase := .cleanup } } (lo + 1) := by
  have hinv := h.batch b batch hb
  obtain ⟨rfl, hsn, hreset, hskipping⟩ := h.front_spec hb (hphase ▸ trivial)
  have hcommitted : batch.committed = true := hinv.releasing_imp (hphase ▸ trivial)
  have hsame : (s.batches.set b { batch with phase := .cleanup }).map
      Batch.batchSn = s.batches.map Batch.batchSn := batchSn_set hb rfl
  have hpopped : popped = batch.txList.length := by
    have hle := hinv.popped_le
    simp only [hphase, BatchPhase.popped] at hle
    omega
  have hbehind : (s.batches.set b { batch with phase := .cleanup })[b + 1]? =
      s.batches[b + 1]? := List.getElem?_set_ne (by omega)
  exact
    { h with
      batch := by
        intro i other hget
        rw [getElem?_set_batch hb] at hget
        split_ifs at hget with hi
        · subst hi
          cases hget
          exact
            { hinv with
              running_iff := hinv.past_running (by simp [hphase]) (by simp)
              settled := fun _ => .inl rfl
              settled_committed := fun _ _ _ => hcommitted
              stop_eq := fun hlo => absurd hlo (by omega)
              epoch_eq := fun hlo => absurd hlo (by omega)
              committed_imp := fun hlo => absurd hlo (by omega)
              releasing_imp := False.elim
              popped_le := Nat.zero_le _
              front := False.elim }
        · have hother := h.batch i other hget
          have hnotFront : ¬ other.phase.IsFront := by
            intro hfront
            exact hi (h.front_spec hget hfront).1.symm
          exact
            { hother with
              settled := fun hlt => hother.settled (by omega)
              settled_committed := fun hlt => hother.settled_committed (by omega)
              stop_eq := fun hlo => stop_congr (hother.stop_eq (by omega)) hsame rfl
              epoch_eq := fun hlo => hother.epoch_eq (by omega)
              committed_imp := fun hlo => hother.committed_imp (by omega)
              front := fun hfront => absurd hfront hnotFront }
      lo_le := by
        rw [length_set]
        exact lt_length hb
      startAt_lo := by
        rw [startAt_congr (s := s) hsame (by rfl)]
        exact (hinv.stop_eq le_rfl).symm
      thread := by
        have hthread : ThreadInv
            { s with batches := s.batches.set b { batch with phase := .cleanup } } b :=
          threadInv_set hb ⟨rfl, by simp [hphase], by simp [hphase], fun _ => id⟩ h.thread
        unfold ThreadInv at hthread ⊢
        unfold skipping at hskipping
        cases hs : s.thread with
        | recoverEpoch => exact absurd hs hreset
        | skipPop => simp [hs] at hskipping
        | top | check => trivial
        | _ => simpa only [hs] using hthread
      active := h.active.trans (countP_set_eq hb (by simp [hphase])).symm
      beginSn_eq := by
        have hbegin := h.beginSn_eq
        simp only [popping, hb, hphase, BatchPhase.popped, map_some, getD_some] at hbegin
        have hnone : ((s.batches[b + 1]?.map fun batch => batch.phase.popped).getD 0) = 0 := by
          rcases hnext : s.batches[b + 1]? with _ | next
          · rfl
          · exact (h.behind_front hnext (lt_succ_self b)).2.2
        rw [popping, hbehind, hnone]
        change s.beginSn + s.skipping = batch.batchSn + batch.txList.length + 0
        omega
      applied_eq := by
        have happlied := h.applied_eq
        simp only [committing, hb, hcommitted, if_true, map_some, getD_some] at happlied
        have hnone : ((s.batches[b + 1]?.map fun batch =>
            if batch.committed then batch.txList.length else 0).getD 0) = 0 := by
          rcases hnext : s.batches[b + 1]? with _ | next
          · rfl
          · simp [(h.behind_front hnext (lt_succ_self b)).2.1]
        rw [committing, hbehind, hnone]
        change s.applied.map Prod.fst = s.ring.take (batch.batchSn + batch.txList.length)
        rw [hsn]
        exact happlied
      applied_lt := by
        rw [length_set]
        exact h.applied_lt
      ordered := by
        intro i j left right hij hleft hright
        exact h.ordered_set hb (by rfl) (by rfl) hij hleft hright }

theorem delete (hb : s.batches[b]? = some batch)
    (hphase : batch.phase = .cleanup ∨ batch.phase = .abandoned ∧ s.thread = .top) :
    PipeInv
      { s with
        activeBatchCount := s.activeBatchCount - 1
        batches := s.batches.set b { batch with phase := .deleted } } lo := by
  have hinv := h.batch b batch hb
  have hspec : batch.phase ≠ .running ∧ batch.phase ≠ .deleted ∧ ¬ batch.phase.IsReleasing ∧
      batch.phase.popped = 0 := by
    rcases hphase with hphase | ⟨hphase, -⟩ <;>
      simp [hphase, BatchPhase.IsReleasing, BatchPhase.popped]
  obtain ⟨hstarted, hlive, hunreleased, hpopped⟩ := hspec
  refine h.replace { batch with phase := .deleted } hb rfl rfl rfl rfl ?_ ?_ ?_
    (h.popping_set hb hpopped.symm)
  · exact
      { hinv with
        running_iff := hinv.past_running hstarted (by simp)
        settled := fun _ => .inr rfl
        committed_imp := fun hlo hcommitted =>
          absurd (hinv.committed_imp hlo hcommitted) hunreleased
        releasing_imp := False.elim
        popped_le := Nat.zero_le _
        front := False.elim }
  · rcases hphase with hphase | ⟨-, htop⟩
    · exact threadInv_set hb ⟨rfl, fun _ => rfl, by simp [hphase], fun _ => id⟩ h.thread
    · simp only [ThreadInv, htop]
  · obtain ⟨hlt, hget⟩ := List.getElem?_eq_some_iff.mp hb
    rw [countP_set hlt, hget, ← h.active]
    simp [hlive]

end

theorem finishBatch_eq_some {ok : Bool} {s' : Pipeline ρ} (hstep : s.finishBatch b ok = some s') :
    ∃ batch phase effect, s.batches[b]? = some batch ∧
      FinishStep batch s.nextCommitSn s.persistedScn (decide (s.ring.length ≤ s.beginSn))
        phase effect ∧
      s' = (s.apply b batch effect).modifyBatch b fun batch =>
        { batch with
          phase := phase
          committed := batch.committed || decide (effect = .commit) } := by
  unfold Pipeline.finishBatch at hstep
  rcases hb : s.batches[b]? with _ | batch
  · simp [hb] at hstep
  · simp only [hb, map_eq_some_iff] at hstep
    obtain ⟨⟨phase, effect⟩, hfinish, hs'⟩ := hstep
    exact ⟨batch, phase, effect, rfl, finishStep hfinish, hs'.symm⟩

/-- Every step of `do_finish_batch_` keeps the invariant. -/
theorem finishBatch (h : PipeInv s lo) {ok : Bool} {s' : Pipeline ρ}
    (hstep : s.finishBatch b ok = some s') : ∃ lo', PipeInv s' lo' := by
  obtain ⟨batch, phase, effect, hb, hfinish, rfl⟩ := finishBatch_eq_some hstep
  have hinv := h.batch b batch hb
  cases hfinish with
  | quiet hwaiting hnext hfront heffect =>
    have hnew := h.waiting hb hwaiting hnext fun hphase =>
      (hfront hphase).elim hinv.front Eq.symm
    rcases heffect with rfl | rfl
    · refine ⟨lo, ?_⟩
      simpa [Pipeline.apply, modifyBatch, modify_eq_set _ hb] using hnew
    · refine ⟨lo, ?_⟩
      simpa [Pipeline.apply, modifyBatch, modify_eq_set _ hb] using hnew.incEpoch
  | past hphase =>
    have hle := h.nextCommitSn_le_batchSn hb
      (h.lo_le_of_not_settled hb (by simp [hphase, BatchPhase.IsSettled]))
    omega
  | commit hphase =>
    refine ⟨lo, ?_⟩
    simpa [Pipeline.apply, modifyBatch, modify_eq_set _ hb] using
      h.commit hb hphase batch.refreshScn
  | updateScn hphase =>
    refine ⟨lo, ?_⟩
    simpa [Pipeline.apply, modifyBatch, modify_eq_set _ hb] using
      h.updateScn hb hphase (max s.refreshScn batch.refreshScn)
  | empty hphase hmore hempty =>
    have hbegin := (h.pop hb hphase hmore).1
    simp only [decide_eq_true_eq] at hempty
    omega
  | pop hphase hmore =>
    obtain ⟨hbegin, hnew⟩ := h.pop hb hphase hmore
    refine ⟨lo, ?_⟩
    simpa [Pipeline.apply, Pipeline.pop, hbegin, modifyBatch, modify_eq_set _ hb] using
      hnew
  | advance hphase hall =>
    refine ⟨lo + 1, ?_⟩
    simpa [Pipeline.apply, modifyBatch, modify_eq_set _ hb] using
      h.advance hb hphase hall
  | decActive hphase =>
    refine ⟨lo, ?_⟩
    simpa [Pipeline.apply, modifyBatch, modify_eq_set _ hb] using
      h.delete hb (.inl hphase)

end PipeInv

end SeekDB.ChangeStream
