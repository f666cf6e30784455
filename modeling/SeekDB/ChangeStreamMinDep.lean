/-
The log position the change stream gives up.  The fetcher walks over its map of
transactions to find the smallest position still needed, while the dispatcher
releases transactions whose batches committed or that it skips; the result is
persisted, and logs below it may be reclaimed.
-/
import SeekDB.ChangeStreamFetcher
import SeekDB.Execution

universe u

namespace SeekDB.ChangeStream

open List Option Fetcher

variable {ρ : Type u}

/-- A walk of `get_min_dep_lsn` over the map: the ids still to visit and the smallest
position seen. -/
structure Scan where
  pending : List Nat
  txMin : Option Nat
  deriving Repr, DecidableEq

/-- The fetcher with the position of its iterator.  `live` collects the redo logs
consumed so far, with their positions, of transactions that are not finished. -/
structure FetchState (ρ : Type u) where
  fetcher : Fetcher ρ
  iterLsn : Nat
  scan : Option Scan
  live : List (Nat × Nat)
  deriving Repr, DecidableEq

inductive FetchEvent (ρ : Type u) where
  | block (size scn : Nat) (block : LogBlock ρ)
  /-- From `release_batch`, after the batch committed, or from `do_dispatch_`, which
  skips a transaction whose version is not above the refresh SCN. -/
  | release (txId : Nat) (committed : Bool)
  | startScan
  | visit
  | persist (minLsn : Nat)

/-- A transaction is finished by its abort log, and a DDL transaction by its commit
log as well. -/
def trackLog (f : Fetcher ρ) (txId lsn : Nat) (log : TxLog ρ) (live : List (Nat × Nat)) :
    List (Nat × Nat) :=
  match log with
  | .redo _ => (txId, lsn) :: live
  | .abort => live.filter fun redo => redo.1 ≠ txId
  | .commit _ =>
    if (f.find txId).any TxInfo.isDdl then live.filter fun redo => redo.1 ≠ txId else live
  | _ => live

/-- Every log of a consumed block counts, also those behind one that fails. -/
def trackLogs (txId lsn scn : Nat) :
    List (TxLogEntry ρ) → Fetcher ρ → List (Nat × Nat) → List (Nat × Nat)
  | [], _, live => live
  | entry :: rest, f, live =>
    trackLogs txId lsn scn rest (f.handleTxLog txId lsn scn entry).1
      (trackLog f txId lsn entry.log live)

def trackBlock (f : Fetcher ρ) (lsn scn : Nat) (block : LogBlock ρ) (live : List (Nat × Nat)) :
    List (Nat × Nat) :=
  match block with
  | .skipped => live
  | .trans txId _ entries => trackLogs txId lsn scn entries f live

namespace FetchState

/-- One visit of a walk. -/
def visit (s : FetchState ρ) : Option (FetchState ρ) :=
  match s.scan with
  | some ⟨txId :: pending, txMin⟩ =>
    some { s with scan := some ⟨pending, Option.merge min (s.fetcher.startOf txId) txMin⟩ }
  | _ => none

/-- The end of a walk. -/
def minDepLsn (s : FetchState ρ) : Option Nat :=
  match s.scan with
  | some ⟨[], txMin⟩ => some (txMin.getD s.fetcher.currentLsn)
  | _ => none

/-- The fetcher handles blocks and walks over its map in one thread; releases come
in at any time, for transactions that were pushed to the ring.  One that is released
without a committed batch stays unfinished. -/
def step (s : FetchState ρ) : FetchEvent ρ → Option (FetchState ρ)
  | .block size scn logs =>
    if s.scan = none then
      some { s with
        fetcher := s.fetcher.handleBlock s.iterLsn size scn logs
        iterLsn := s.iterLsn + size
        live := trackBlock s.fetcher s.iterLsn scn logs s.live }
    else none
  | .release txId committed =>
    if txId ∈ s.fetcher.ring then
      some { s with
        fetcher := s.fetcher.releaseCommittedTx txId
        live := if committed then s.live.filter fun redo => redo.1 ≠ txId else s.live }
    else none
  | .startScan =>
    if s.scan = none then
      some { s with scan := some ⟨s.fetcher.txInfo.map TxInfo.txId, none⟩ }
    else none
  | .visit => s.visit
  | .persist minLsn => if s.minDepLsn = some minLsn then some { s with scan := none } else none

end FetchState

/-- All calls succeed, and a redo log is neither empty nor oversized. -/
structure TxLogEntry.Sound (entry : TxLogEntry ρ) : Prop where
  getNextLog : entry.getNextLog = true
  deserializeLogBody : entry.deserializeLogBody = true
  allocTxInfo : entry.allocTxInfo = true
  allocRedoBuf : entry.allocRedoBuf = true
  pushBack : entry.pushBack = true
  pushRing : entry.pushRing = true
  redoLen : ∀ record, entry.log = .redo record →
    0 < record.redoLen ∧ record.redoLen ≤ maxRedoMutatorSize

/-- Nothing fails while the block is handled. -/
def LogBlock.Sound : LogBlock ρ → Prop
  | .skipped => True
  | .trans _ readable entries => readable = true ∧ ∀ entry ∈ entries, entry.Sound

/-- Nothing fails in a block, and nothing is released that was not batched. -/
def FetchEvent.Sound : FetchEvent ρ → Prop
  | .block _ _ logs => logs.Sound
  | .release _ committed => committed = true
  | _ => True

section

variable {f : Fetcher ρ} {txId lsn scn t : Nat} {entry : TxLogEntry ρ} {live : List (Nat × Nat)}

/-- Every live redo log is covered by the position of its transaction. -/
def Covered (f : Fetcher ρ) (live : List (Nat × Nat)) : Prop :=
  ∀ redo ∈ live, ∃ start, f.startOf redo.1 = some start ∧ start ≤ redo.2

/-- No position is recorded beyond `bound`. -/
def StartsWithin (f : Fetcher ρ) (bound : Nat) : Prop :=
  ∀ t start, f.startOf t = some start → start ≤ bound

/-- The positions are unchanged, apart from a new one at `lsn`. -/
theorem Covered.create (hcovered : Covered f live) (alloc : Bool) :
    Covered (f.getOrCreateTxInfo txId lsn alloc).1 live := by
  intro redo hredo
  obtain ⟨start, hstart, hle⟩ := hcovered redo hredo
  refine ⟨start, ?_, hle⟩
  rw [startOf_create, if_neg, hstart]
  rintro ⟨heq, hnone, -⟩
  rw [startOf, heq, hnone] at hstart
  cases hstart

theorem StartsWithin.create (hwithin : StartsWithin f lsn) (alloc : Bool) :
    StartsWithin (f.getOrCreateTxInfo txId lsn alloc).1 lsn := by
  intro t start hstart
  rw [startOf_create] at hstart
  split_ifs at hstart with hnew
  · exact (Option.some.inj hstart).ge
  · exact hwithin t start hstart

theorem Covered.erase (hcovered : Covered f live) :
    Covered (f.erase txId) (live.filter fun redo => redo.1 ≠ txId) := by
  intro redo hredo
  obtain ⟨hmem, hne⟩ := mem_filter.mp hredo
  rw [startOf_erase, if_neg (of_decide_eq_true hne)]
  exact hcovered redo hmem

theorem StartsWithin.erase {bound : Nat} (hwithin : StartsWithin f bound) :
    StartsWithin (f.erase txId) bound := by
  intro t start hstart
  rw [startOf_erase] at hstart
  split_ifs at hstart
  exact hwithin t start hstart

theorem Covered.of_startOf {g : Fetcher ρ} (hsame : ∀ t, g.startOf t = f.startOf t)
    (hcovered : Covered f live) : Covered g live := by
  intro redo hredo
  rw [hsame]
  exact hcovered redo hredo

theorem StartsWithin.of_startOf {g : Fetcher ρ} {bound : Nat}
    (hsame : ∀ t, g.startOf t = f.startOf t) (hwithin : StartsWithin f bound) :
    StartsWithin g bound :=
  fun t start hstart => hwithin t start (hsame t ▸ hstart)

theorem startOf_created (hwithin : StartsWithin f lsn) :
    ∃ start, (f.getOrCreateTxInfo txId lsn true).1.startOf txId = some start ∧ start ≤ lsn := by
  rw [startOf_create]
  rcases hfind : f.find txId with _ | info
  · exact ⟨lsn, by simp, le_rfl⟩
  · have hstart : f.startOf txId = some info.startLsn := by rw [startOf, hfind]; rfl
    exact ⟨info.startLsn, by simp [hstart], hwithin txId _ hstart⟩

theorem getOrCreateTxInfo_ok : (f.getOrCreateTxInfo txId lsn true).2 = true := by
  rw [getOrCreateTxInfo]
  rcases f.find txId with _ | info <;> rfl

theorem handleTxLog_covered (hsound : entry.Sound) (hcovered : Covered f live)
    (hwithin : StartsWithin f lsn) :
    (f.handleTxLog txId lsn scn entry).2 = true ∧
      Covered (f.handleTxLog txId lsn scn entry).1 (trackLog f txId lsn entry.log live) ∧
      StartsWithin (f.handleTxLog txId lsn scn entry).1 lsn := by
  have hread : entry.getNextLog = true ∧ entry.deserializeLogBody = true :=
    ⟨hsound.getNextLog, hsound.deserializeLogBody⟩
  rw [handleTxLog, if_pos hread]
  rcases hlog : entry.log with record | ddlTrans | commitVersion | _ | ⟨fromSeq, toSeq⟩ | _
  · obtain ⟨hpos, hmax⟩ := hsound.redoLen record hlog
    have hsize : ¬ (record.redoLen = 0 ∨ maxRedoMutatorSize < record.redoLen) := by
      omega
    have hsame : ∀ t, ((f.getOrCreateTxInfo txId lsn true).1.update txId fun info =>
        { info with redoList := info.redoList ++ [record] }).startOf t =
          (f.getOrCreateTxInfo txId lsn true).1.startOf t :=
      fun t => startOf_update (fun _ => rfl) fun _ => rfl
    simp only [if_pos hpos, handleRedoLog, if_neg hsize, hsound.allocTxInfo,
      hsound.allocRedoBuf, hsound.pushBack, getOrCreateTxInfo_ok, and_self, if_true, true_and]
    refine ⟨?_, (hwithin.create true).of_startOf hsame⟩
    intro redo hredo
    rw [hsame]
    rcases mem_cons.mp hredo with rfl | hold
    · exact startOf_created hwithin
    · exact hcovered.create true redo hold
  · rcases ddlTrans with _ | _
    · exact ⟨rfl, hcovered, hwithin⟩
    have hsame : ∀ t, ((f.getOrCreateTxInfo txId lsn true).1.update txId fun info =>
        { info with isDdl := true }).startOf t =
          (f.getOrCreateTxInfo txId lsn true).1.startOf t :=
      fun t => startOf_update (fun _ => rfl) fun _ => rfl
    simp only [if_true, hsound.allocTxInfo, getOrCreateTxInfo_ok, true_and]
    exact ⟨(hcovered.create true).of_startOf hsame, (hwithin.create true).of_startOf hsame⟩
  · simp only [handleCommitLog, trackLog, hsound.pushRing, if_true]
    rcases hfind : f.find txId with _ | info
    · exact ⟨rfl, by simpa using hcovered, hwithin⟩
    rcases hddl : info.isDdl with _ | _
    · have hsame : ∀ t, (f.update txId fun info =>
          { info with
            commitVersion := commitVersion.getD scn
            schemaVersion := f.currentSchemaVersion }).startOf t = f.startOf t :=
        fun t => startOf_update (fun _ => rfl) fun _ => rfl
      simp only [any_some, hddl, Bool.false_eq_true, if_false]
      exact ⟨trivial, hcovered.of_startOf hsame, hwithin.of_startOf hsame⟩
    · simp only [any_some, hddl, if_true, true_and]
      split_ifs <;> exact ⟨hcovered.erase, hwithin.erase⟩
  · exact ⟨rfl, hcovered.erase, hwithin.erase⟩
  · simp only [handleRollbackToLog, hsound.pushBack, if_true]
    rcases hfind : f.find txId with _ | info
    · exact ⟨rfl, hcovered, hwithin⟩
    have hsame : ∀ t, (f.update txId fun info =>
        { info with rollbackList := info.rollbackList ++ [(toSeq, fromSeq)] }).startOf t =
          f.startOf t := fun t => startOf_update (fun _ => rfl) fun _ => rfl
    exact ⟨rfl, hcovered.of_startOf hsame, hwithin.of_startOf hsame⟩
  · exact ⟨rfl, hcovered, hwithin⟩

theorem handleTxLogs_covered {entries : List (TxLogEntry ρ)}
    (hsound : ∀ entry ∈ entries, entry.Sound) (hcovered : Covered f live)
    (hwithin : StartsWithin f lsn) :
    Covered (handleTxLogs txId lsn scn entries f)
        (trackLogs txId lsn scn entries f live) ∧
      StartsWithin (handleTxLogs txId lsn scn entries f) lsn := by
  induction entries generalizing f live with
  | nil => exact ⟨hcovered, hwithin⟩
  | cons entry rest ih =>
    obtain ⟨hok, hnext, hwithin'⟩ := @handleTxLog_covered ρ f txId lsn scn entry live
      (hsound entry mem_cons_self) hcovered hwithin
    simp only [handleTxLogs, hok, if_true, trackLogs]
    exact ih (fun e he => hsound e (mem_cons_of_mem entry he)) hnext hwithin'

end

/-- What holds between the steps of the fetcher. -/
structure FetchInv (s : FetchState ρ) : Prop where
  covered : Covered s.fetcher s.live
  within : StartsWithin s.fetcher s.iterLsn
  /-- A walk has still to visit a transaction or has seen a position below its logs. -/
  scanned : ∀ scan, s.scan = some scan → ∀ redo ∈ s.live,
    redo.1 ∈ scan.pending ∨ ∃ m, scan.txMin = some m ∧ m ≤ redo.2

section

variable {s next : FetchState ρ} {event : FetchEvent ρ}

theorem handleBlock_covered {f : Fetcher ρ} {live : List (Nat × Nat)} {lsn size scn : Nat}
    {block : LogBlock ρ} (hsound : block.Sound) (hcovered : Covered f live)
    (hwithin : StartsWithin f lsn) :
    Covered (f.handleBlock lsn size scn block) (trackBlock f lsn scn block live) ∧
      StartsWithin (f.handleBlock lsn size scn block) (lsn + size) := by
  rcases block with _ | ⟨txId, readable, entries⟩
  · exact ⟨hcovered, fun t start h => (hwithin t start h).trans (Nat.le_add_right lsn size)⟩
  obtain ⟨rfl, hentries⟩ := hsound
  obtain ⟨hnext, hwithin'⟩ := @handleTxLogs_covered ρ f txId lsn scn live entries hentries
    hcovered hwithin
  exact ⟨hnext, fun t start h => (hwithin' t start h).trans (Nat.le_add_right lsn size)⟩

theorem txId_mem_of_startOf {f : Fetcher ρ} {t start : Nat} (h : f.startOf t = some start) :
    t ∈ f.txInfo.map TxInfo.txId := by
  obtain ⟨info, hfind, -⟩ := map_eq_some_iff.mp h
  exact List.mem_map.mpr ⟨info, List.mem_of_find?_eq_some hfind, txId_of_find hfind⟩

theorem merge_min_le {a b : Option Nat} {bound : Nat}
    (h : (∃ m, a = some m ∧ m ≤ bound) ∨ ∃ m, b = some m ∧ m ≤ bound) :
    ∃ m, Option.merge min a b = some m ∧ m ≤ bound := by
  rcases h with ⟨m, rfl, hm⟩ | ⟨m, rfl, hm⟩
  · rcases b with _ | n
    · exact ⟨m, rfl, hm⟩
    · exact ⟨min m n, rfl, (Nat.min_le_left m n).trans hm⟩
  · rcases a with _ | n
    · exact ⟨m, rfl, hm⟩
    · exact ⟨min n m, rfl, (Nat.min_le_right n m).trans hm⟩

theorem visit_cases (h : s.visit = some next) :
    ∃ txId pending txMin, s.scan = some ⟨txId :: pending, txMin⟩ ∧
      next =
        { s with scan := some ⟨pending, Option.merge min (s.fetcher.startOf txId) txMin⟩ } := by
  rw [FetchState.visit] at h
  split at h
  · rename_i txId pending txMin hscan
    exact ⟨txId, pending, txMin, hscan, (Option.some.inj h).symm⟩
  · cases h

theorem FetchInv.visit (h : FetchInv s) (hvisit : s.visit = some next) : FetchInv next := by
  obtain ⟨txId, pending, txMin, hscan, rfl⟩ := visit_cases hvisit
  refine ⟨h.covered, h.within, ?_⟩
  rintro _ ⟨rfl⟩ redo hredo
  rcases h.scanned _ hscan redo hredo with hpending | hseen
  · rcases mem_cons.mp hpending with heq | hrest
    · obtain ⟨start, hstart, hle⟩ := h.covered redo hredo
      exact Or.inr (merge_min_le (Or.inl ⟨start, heq ▸ hstart, hle⟩))
    · exact Or.inl hrest
  · exact Or.inr (merge_min_le (Or.inr hseen))

theorem FetchInv.step (h : FetchInv s) (hstep : s.step event = some next) (hsound : event.Sound) :
    FetchInv next := by
  cases event with
  | block size scn logs =>
    obtain ⟨hidle, heq⟩ := ite_none_right_eq_some.mp hstep
    cases heq
    obtain ⟨hcovered, hwithin⟩ := @handleBlock_covered ρ s.fetcher s.live s.iterLsn size scn
      logs hsound h.covered h.within
    refine ⟨hcovered, hwithin, fun scan hscan => ?_⟩
    rw [hidle] at hscan
    cases hscan
  | release =>
    cases hsound
    obtain ⟨-, heq⟩ := ite_none_right_eq_some.mp hstep
    cases heq
    refine ⟨h.covered.erase, h.within.erase, fun scan hscan redo hredo => ?_⟩
    exact h.scanned scan hscan redo (mem_filter.mp hredo).1
  | startScan =>
    obtain ⟨-, heq⟩ := ite_none_right_eq_some.mp hstep
    cases heq
    refine ⟨h.covered, h.within, ?_⟩
    rintro _ ⟨rfl⟩ redo hredo
    obtain ⟨start, hstart, -⟩ := h.covered redo hredo
    exact Or.inl (txId_mem_of_startOf hstart)
  | visit => exact h.visit hstep
  | persist =>
    obtain ⟨-, heq⟩ := ite_none_right_eq_some.mp hstep
    cases heq
    refine ⟨h.covered, h.within, fun scan hnone => ?_⟩
    cases hnone

/-- The fetcher at the start of its consumption. -/
def FetchState.init (lsn scn : Nat) (schemaVersion : Int) : FetchState ρ :=
  { fetcher :=
      { currentLsn := lsn, currentScn := scn, currentSchemaVersion := schemaVersion,
        txInfo := [], ring := [] }
    iterLsn := lsn
    scan := none
    live := [] }

theorem FetchInv.init (lsn scn : Nat) (schemaVersion : Int) :
    FetchInv (FetchState.init lsn scn schemaVersion : FetchState ρ) := by
  refine ⟨fun redo h => ?_, fun t start h => ?_, fun scan h => ?_⟩
  · cases h
  · cases h
  · cases h

theorem FetchInv.run {lsn scn : Nat} {schemaVersion : Int} {events : List (FetchEvent ρ)}
    (hrun : events.foldlM FetchState.step (.init lsn scn schemaVersion) = some s)
    (hsound : ∀ event ∈ events, event.Sound) : FetchInv s := by
  refine (Execution.of_foldlM hrun).history_invariant
    (P := fun events s => (∀ event ∈ events, event.Sound) → FetchInv s)
    (fun _ => FetchInv.init lsn scn schemaVersion) ?_ hsound
  intro events event state next hinv hstep hsound
  apply (hinv fun e he => hsound e (mem_append_left _ he)).step hstep
  exact hsound event (mem_append_right _ (mem_singleton_self event))

end

/-- A redo record of one row. -/
def oneRow : RedoRecord Unit :=
  { redoLen := 8
    entries := [⟨.row, 200001, .ofParts 1 0, some 7, ()⟩] }

/-- The dispatcher skips a transaction that was pushed. -/
def skippedRun : List (FetchEvent Unit) :=
  [.block 10 1 (.trans 1 true [{ log := .redo oneRow }]),
    .block 10 2 (.trans 1 true [{ log := .commit none }]), .release 1 false, .startScan]

/-- The release alone gives up its position, too. -/
theorem minDepLsn_skipped : ∃ s, skippedRun.foldlM FetchState.step (.init 0 0 0) = some s ∧
      s.minDepLsn = some 20 ∧ (1, 0) ∈ s.live :=
  ⟨_, rfl, rfl, by decide⟩

end SeekDB.ChangeStream
