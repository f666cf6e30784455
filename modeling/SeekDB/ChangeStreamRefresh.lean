/-
The refresh point of the change stream (ob_change_stream_fetcher.cpp): the fetcher
consumes the log and, in rounds of its own, reads its map of transactions, the end of
the log and the GTS to raise `refresh_scn_`, while transactions commit and the
dispatcher skips what is not above it.

The log starts at the position the fetcher starts from, and positions are relative to
it.  A round that fails at one of its calls is given up.
-/
import SeekDB.ChangeStreamRefreshScn

universe u

namespace SeekDB.ChangeStream

open List Nat Option Fetcher

variable {executorCount : Nat} {ρ : Type u}

def TxLog.isCommit : TxLog ρ → Bool
  | .commit _ => true
  | _ => false

/-- The log ends its transaction. -/
def TxLog.isEnd : TxLog ρ → Bool
  | .commit _ => true
  | .abort => true
  | _ => false

/-- The commit version is the scn of the log. -/
def TxLog.versionIs (scn : Nat) : TxLog ρ → Bool
  | .commit (some commitVersion) => commitVersion == scn
  | _ => true

namespace LogBlock

def txId? : LogBlock ρ → Option Nat
  | .skipped => none
  | .trans txId _ _ => some txId

def logs : LogBlock ρ → List (TxLogEntry ρ)
  | .skipped => []
  | .trans _ _ entries => entries

/-- The transaction that ends in the block. -/
def endsTx (block : LogBlock ρ) : Option Nat :=
  if block.logs.any fun entry => entry.log.isEnd then block.txId? else none

def hasCommit (block : LogBlock ρ) : Bool := block.logs.any fun entry => entry.log.isCommit

/-- A transaction ends with the last log of a block. -/
def wellFormed (block : LogBlock ρ) (scn : Nat) : Bool :=
  (block.logs.dropLast.all fun entry => !entry.log.isEnd) &&
    block.logs.all fun entry => entry.log.versionIs scn

end LogBlock

/-- An entry of the log. -/
structure StreamEntry (ρ : Type u) where
  size : Nat
  scn : Nat
  block : LogBlock ρ

/-- `later` may follow `earlier`: the scn is larger, and its transaction has not ended. -/
def StreamEntry.Before (earlier later : StreamEntry ρ) : Prop :=
  earlier.scn < later.scn ∧ (earlier.block.endsTx = none ∨ earlier.block.endsTx ≠ later.block.txId?)

instance (earlier later : StreamEntry ρ) : Decidable (earlier.Before later) :=
  inferInstanceAs (Decidable (_ ∧ _))

/-- Where a round of `try_advance_refresh_scn_` is. -/
inductive Round where
  | idle
  | started
  | txInfoEmpty
  | caughtUp
  | advance (refreshScn : Nat)
  deriving Repr, DecidableEq

/-- `clock` is the largest GTS issued and scn given to a log; `peeked` tells that
`current_scn_` is that of an entry looked at and not consumed. -/
structure StreamState (ρ : Type u) where
  pipe : Pipeline ρ
  fetcher : Fetcher ρ
  log : List (StreamEntry ρ)
  clock : Nat
  next : Nat
  ready : Bool
  lsnValid : Bool
  scnValid : Bool
  peeked : Bool
  released : Nat
  round : Round

inductive StreamEvent (ρ : Type u) where
  | append (entry : StreamEntry ρ)
  | initPosition (fromZero ok : Bool)
  | consume
  | startRound (gts : Nat)
  | readTxInfo
  | readMaxLsn
  | readGts (gts : Nat)
  | updateRefreshScn
  | failRound
  | release
  | pipe (event : PipeEvent ρ)

namespace StreamState

/-- The position behind the first `n` entries. -/
def lsnAt (s : StreamState ρ) (n : Nat) : Nat := ((s.log.take n).map StreamEntry.size).sum

def maxLsn (s : StreamState ρ) : Nat := s.lsnAt s.log.length

/-- `init_consumption_position_`; it may fail after it has set `current_scn_`. -/
def initPosition (s : StreamState ρ) (fromZero ok : Bool) : StreamState ρ :=
  let peek := if fromZero then none else s.log.head?
  { s with
    fetcher := { s.fetcher with currentLsn := 0, currentScn := (peek.map StreamEntry.scn).getD 0 }
    next := 0
    ready := ok
    lsnValid := true
    scnValid := true
    peeked := peek.isSome }

/-- The transactions that consuming a block has pushed to the dispatcher. -/
def pushed (f f' : Fetcher ρ) : List (TxInfo ρ) :=
  (f'.ring.drop f.ring.length).filterMap f'.find

def consume (s : StreamState ρ) (entry : StreamEntry ρ) : StreamState ρ :=
  let f := s.fetcher.handleBlock (s.lsnAt s.next) entry.size entry.scn entry.block
  { s with
    fetcher := f
    next := s.next + 1
    peeked := false
    pipe := { s.pipe with ring := s.pipe.ring ++ pushed s.fetcher f } }

def step (executorCount : Nat) (s : StreamState ρ) : StreamEvent ρ → Option (StreamState ρ)
  | .append entry =>
    -- Only a commit log asks for an scn above every GTS issued.
    if (entry.block.hasCommit → s.clock < entry.scn) ∧ 0 < entry.scn ∧ 0 < entry.size ∧
        entry.block.wellFormed entry.scn ∧ ∀ earlier ∈ s.log, earlier.Before entry then
      some { s with log := s.log ++ [entry], clock := max s.clock entry.scn }
    else none
  | .initPosition fromZero ok =>
    if s.round = .idle ∧ s.ready = false then some (s.initPosition fromZero ok) else none
  | .consume =>
    match s.log[s.next]? with
    | none => none
    | some entry => if s.round = .idle ∧ s.ready then some (s.consume entry) else none
  | .startRound gts =>
    if s.round = .idle then some { s with clock := max s.clock gts, round := .started }
    else none
  | .readTxInfo =>
    if s.round = .started then
      some { s with round := if s.fetcher.txInfo.isEmpty then .txInfoEmpty else .idle }
    else none
  | .readMaxLsn =>
    if s.round = .txInfoEmpty then
      some { s with
        round :=
          if s.lsnValid ∧ s.maxLsn ≤ s.fetcher.currentLsn then .caughtUp
          else if s.scnValid then .advance s.fetcher.currentScn
          else .idle }
    else none
  | .readGts gts =>
    if s.round = .caughtUp then
      some { s with clock := max s.clock gts, round := .advance gts }
    else none
  | .updateRefreshScn =>
    match s.round with
    | .advance scn =>
      some { s with
        pipe := { s.pipe with refreshScn := max s.pipe.refreshScn scn }
        round := .idle }
    | _ => none
  | .failRound => some { s with round := .idle }
  | .release =>
    match s.pipe.ring[s.released]? with
    | none => none
    | some tx =>
      if s.released < s.pipe.beginSn then
        some { s with
          fetcher := s.fetcher.releaseCommittedTx tx.txId
          released := s.released + 1 }
      else none
  | .pipe event =>
    if event.isInternal then
      (s.pipe.step executorCount event).map fun pipe => { s with pipe := pipe }
    else none

/-- The fetcher is about to start on `log`; the batches of an earlier run have applied
everything up to `refreshScn`, which they persisted. -/
def init (refreshScn : Nat) (log : List (StreamEntry ρ)) (clock : Nat) : StreamState ρ :=
  { pipe := .init refreshScn
    fetcher := ⟨0, 0, 0, [], []⟩
    log := log
    clock := clock
    next := 0
    ready := false
    lsnValid := false
    scnValid := false
    peeked := false
    released := 0
    round := .idle }

end StreamState

/-! ### What consuming a block does to the fetcher -/

/-- Logs of the transaction `txId` leave the others alone, and push at most it. -/
def Handled (f f' : Fetcher ρ) (txId scn : Nat) (commits : Bool) : Prop :=
  (∀ other, other ≠ txId → f'.find other = f.find other) ∧ (f'.ring = f.ring ∨
      commits = true ∧ f'.ring = f.ring ++ [txId] ∧
        ∃ info, f'.find txId = some info ∧ info.commitVersion = scn)

namespace Handled

variable {f f' : Fetcher ρ} {txId lsn scn : Nat}

theorem refl (f : Fetcher ρ) (txId scn : Nat) (commits : Bool) : Handled f f txId scn commits :=
  ⟨fun _ _ => rfl, .inl rfl⟩

theorem erase (f : Fetcher ρ) (txId scn : Nat) (commits : Bool) :
    Handled f (f.erase txId) txId scn commits := by
  refine ⟨fun other hother => ?_, .inl rfl⟩
  rw [find_erase, if_neg hother]

theorem find_update_other {change : TxInfo ρ → TxInfo ρ}
    (hchange : ∀ info, (change info).txId = info.txId) {other : Nat} (hother : other ≠ txId) :
    (f.update txId change).find other = f.find other := by
  rw [find_update hchange]
  rcases hfind : f.find other with _ | info
  · rfl
  · have hid := txId_of_find hfind
    simp [hid, hother]

theorem find_create_other (alloc : Bool) {other : Nat} (hother : other ≠ txId) :
    (f.getOrCreateTxInfo txId lsn alloc).1.find other = f.find other := by
  unfold getOrCreateTxInfo
  cases f.find txId with
  | some => rfl
  | none =>
    cases alloc with
    | false => rfl
    | true => simp [find, hother.symm]

theorem ring_create (alloc : Bool) : (f.getOrCreateTxInfo txId lsn alloc).1.ring = f.ring := by
  unfold getOrCreateTxInfo
  cases f.find txId with
  | some => rfl
  | none => cases alloc <;> rfl

theorem handleRedoLog (record : RedoRecord ρ) (entry : TxLogEntry ρ) (commits : Bool) :
    Handled f (f.handleRedoLog txId record lsn entry).1 txId scn commits := by
  unfold Fetcher.handleRedoLog
  simp only
  split_ifs
  · exact refl f txId scn commits
  · refine ⟨fun other hother => ?_, .inl (ring_create _)⟩
    exact (find_update_other (fun _ => by rfl) hother).trans (find_create_other _ hother)
  · exact ⟨fun other hother => find_create_other _ hother, .inl (ring_create _)⟩

theorem handleCommitLog (commitVersion : Option Nat) (hversion : commitVersion.getD scn = scn)
    (pushRing : Bool) :
    Handled f (f.handleCommitLog txId (commitVersion.getD scn) pushRing).1 txId scn true := by
  unfold Fetcher.handleCommitLog
  rcases hfind : f.find txId with _ | info
  · exact refl f txId scn true
  simp only
  split_ifs with hddl hpositive hpush
  · exact erase f txId scn true
  · exact erase f txId scn true
  · refine ⟨fun other hother => find_update_other (fun _ => by rfl) hother, .inr ⟨rfl, rfl, ?_⟩⟩
    have hupdate : (f.update txId fun info =>
        { info with
          commitVersion := commitVersion.getD scn
          schemaVersion := f.currentSchemaVersion }).find txId = some _ :=
      find_update_self (fun _ => rfl) hfind
    exact ⟨_, hupdate, hversion⟩
  · exact erase f txId scn true

theorem handleTxLog (entry : TxLogEntry ρ) (hversion : entry.log.versionIs scn = true) :
    Handled f (f.handleTxLog txId lsn scn entry).1 txId scn entry.log.isCommit := by
  unfold Fetcher.handleTxLog
  split_ifs
  · cases hlog : entry.log with
    | redo record =>
      simp only
      split_ifs
      · exact handleRedoLog record entry _
      · exact refl f txId scn _
    | multiDataSource =>
      simp only
      split_ifs
      · refine ⟨fun other hother => ?_, .inl (ring_create _)⟩
        exact (find_update_other (fun _ => by rfl) hother).trans (find_create_other _ hother)
      · exact refl f txId scn _
    | commit commitVersion =>
      refine handleCommitLog commitVersion ?_ entry.pushRing
      rw [hlog] at hversion
      cases commitVersion with
      | none => rfl
      | some => simpa [TxLog.versionIs] using hversion
    | abort => exact erase f txId scn _
    | rollbackTo =>
      simp only [handleRollbackToLog]
      cases f.find txId with
      | none => exact refl f txId scn _
      | some =>
        split_ifs
        · exact ⟨fun other hother => find_update_other (fun _ => by rfl) hother, .inl rfl⟩
        · exact refl f txId scn _
    | other => exact refl f txId scn _
  · exact refl f txId scn _

theorem trans {f'' : Fetcher ρ} {commits : Bool} (h : Handled f f' txId scn false)
    (h' : Handled f' f'' txId scn commits) : Handled f f'' txId scn commits := by
  obtain ⟨hother, hring⟩ := h
  obtain ⟨hother', hring'⟩ := h'
  refine ⟨fun other hne => (hother' other hne).trans (hother other hne), ?_⟩
  rcases hring with hring | ⟨hcommits, -⟩
  · rw [hring] at hring'
    exact hring'
  · cases hcommits

theorem weaken {commits : Bool} (h : Handled f f' txId scn false) :
    Handled f f' txId scn commits := by
  obtain ⟨hother, hring | ⟨hcommits, -⟩⟩ := h
  · exact ⟨hother, .inl hring⟩
  · cases hcommits

theorem handleTxLogs (entries : List (TxLogEntry ρ))
    (hend : (entries.dropLast.all fun entry => !entry.log.isEnd) = true)
    (hversion : (entries.all fun entry => entry.log.versionIs scn) = true) :
    Handled f (Fetcher.handleTxLogs txId lsn scn entries f) txId scn
      (entries.any fun entry => entry.log.isCommit) := by
  induction entries generalizing f with
  | nil => exact refl f txId scn _
  | cons entry rest ih =>
    simp only [all_cons, Bool.and_eq_true] at hversion
    have hentry : Handled f (f.handleTxLog txId lsn scn entry).1 txId scn entry.log.isCommit :=
      handleTxLog entry hversion.1
    cases rest with
    | nil =>
      unfold Fetcher.handleTxLogs
      simpa [Fetcher.handleTxLogs] using hentry
    | cons =>
      simp only [dropLast_cons_cons, all_cons, Bool.and_eq_true] at hend
      have hcommit : entry.log.isCommit = false := by
        cases hlog : entry.log <;> simp_all [TxLog.isEnd, TxLog.isCommit]
      rw [hcommit] at hentry
      rw [any_cons, hcommit, Bool.false_or]
      unfold Fetcher.handleTxLogs
      simp only
      split_ifs
      · exact hentry.trans (ih hend.2 hversion.2)
      · exact hentry.weaken

end Handled

/-- A block that is consumed leaves the transactions of other blocks alone, and pushes at
most the one that commits in it. -/
theorem handleBlock_spec (f : Fetcher ρ) (lsn size : Nat) {scn : Nat} {block : LogBlock ρ}
    (hblock : block.wellFormed scn = true) :
    (∀ txId, block.txId? ≠ some txId → (f.handleBlock lsn size scn block).find txId = f.find txId) ∧
      (StreamState.pushed f (f.handleBlock lsn size scn block) = [] ∧
          (f.handleBlock lsn size scn block).ring = f.ring ∨
        ∃ info, block.hasCommit = true ∧ block.endsTx = some info.txId ∧
          block.txId? = some info.txId ∧ info.commitVersion = scn ∧
          StreamState.pushed f (f.handleBlock lsn size scn block) = [info] ∧
          (f.handleBlock lsn size scn block).ring = f.ring ++ [info.txId] ∧
          (f.handleBlock lsn size scn block).find info.txId = some info) := by
  cases block with
  | skipped =>
    refine ⟨fun _ _ => rfl, .inl ⟨?_, rfl⟩⟩
    simp [StreamState.pushed, handleBlock]
  | trans txId readable entries =>
    simp only [LogBlock.wellFormed, LogBlock.logs, Bool.and_eq_true] at hblock
    have hlogs : Handled f (Fetcher.handleTxLogs txId lsn scn entries f) txId scn
        (entries.any fun entry => entry.log.isCommit) :=
      Handled.handleTxLogs entries hblock.1 hblock.2
    obtain ⟨hother, hring⟩ := hlogs
    cases readable with
    | false =>
      refine ⟨fun _ _ => rfl, .inl ⟨?_, rfl⟩⟩
      simp [StreamState.pushed, handleBlock]
    | true =>
      refine ⟨fun other hne => hother other (fun heq => hne (by rw [heq]; rfl)), ?_⟩
      rcases hring with hring | ⟨hcommit, hring, info, hfind, hscn⟩
      · refine .inl ⟨?_, hring⟩
        simp [StreamState.pushed, handleBlock, hring]
      have hid := txId_of_find hfind
      subst hid
      refine .inr ⟨info, hcommit, ?_, rfl, hscn, ?_, hring, hfind⟩
      · have hend : (entries.any fun entry => entry.log.isEnd) = true := by
          obtain ⟨entry, hentry, hlog⟩ := List.any_eq_true.mp hcommit
          refine List.any_eq_true.mpr ⟨entry, hentry, ?_⟩
          cases hkind : entry.log <;> simp_all [TxLog.isCommit, TxLog.isEnd]
        simp [LogBlock.endsTx, LogBlock.logs, LogBlock.txId?, hend]
      have hfind' : (f.handleBlock lsn size scn (.trans info.txId true entries)).find
          info.txId = some info := hfind
      have hring' : (f.handleBlock lsn size scn (.trans info.txId true entries)).ring =
          f.ring ++ [info.txId] := hring
      simp [StreamState.pushed, hring', hfind']

/-! ### The invariant of the stream -/

variable {entry : StreamEntry ρ} {tx : TxInfo ρ}

namespace StreamState

variable {s : StreamState ρ} {refreshed : Nat}

/-- A log that was appended by the rules. -/
def LogOk (log : List (StreamEntry ρ)) (clock : Nat) : Prop :=
  log.Pairwise StreamEntry.Before ∧
    ∀ entry ∈ log, 0 < entry.scn ∧ entry.scn ≤ clock ∧ 0 < entry.size ∧
      entry.block.wellFormed entry.scn = true

/-- No transaction above `refreshed` is at most `scn`, unless it is one of the first `n` of
the ring; those that commit later get a larger scn than the clock. -/
def Safe (refreshed : Nat) (s : StreamState ρ) (scn n : Nat) : Prop :=
  scn ≤ s.clock ∧ (∀ (k : Nat) (entry : StreamEntry ρ), s.next ≤ k → s.log[k]? = some entry →
      entry.block.hasCommit = true → refreshed < entry.scn → scn < entry.scn) ∧
    ∀ (k : Nat) (tx : TxInfo ρ), n ≤ k → s.pipe.ring[k]? = some tx →
      refreshed < tx.commitVersion → scn < tx.commitVersion

/-- An earlier run of the stream has applied the transaction. -/
def Old (refreshed : Nat) (tx : TxInfo ρ) : Prop := tx.commitVersion ≤ refreshed

def RoundInv (refreshed : Nat) (s : StreamState ρ) : Prop :=
  match s.round with
  | .idle => True
  | .started => True
  | .txInfoEmpty => s.pipe.ring.length ≤ s.pipe.applied.length
  | .caughtUp =>
    s.pipe.ring.length ≤ s.pipe.applied.length ∧
      ∀ (k : Nat) (entry : StreamEntry ρ), s.next ≤ k → s.log[k]? = some entry →
        entry.block.hasCommit = false
  | .advance scn => Safe refreshed s scn s.pipe.applied.length

/-- What holds of the log and the ring in every run. -/
structure LogInv (s : StreamState ρ) : Prop where
  pipe : ∃ lo, PipeInv s.pipe lo
  log : LogOk s.log s.clock
  next_le : s.next ≤ s.log.length
  ring_consumed : ∀ tx ∈ s.pipe.ring, ∃ j entry, j < s.next ∧ s.log[j]? = some entry ∧
    entry.block.endsTx = some tx.txId ∧ tx.commitVersion = entry.scn
  ring_sorted : s.pipe.ring.Pairwise fun earlier later =>
    earlier.commitVersion < later.commitVersion ∧ earlier.txId ≠ later.txId
  not_ready : s.ready = false → s.next = 0

/-- What holds as long as no round is disturbed. -/
structure StreamInv (refreshed : Nat) (s : StreamState ρ) : Prop extends LogInv s where
  ring_ids : s.fetcher.ring = s.pipe.ring.map TxInfo.txId
  live : ∀ (k : Nat) (tx : TxInfo ρ), s.released ≤ k → s.pipe.ring[k]? = some tx →
    (s.fetcher.find tx.txId).isSome = true
  released_le : s.released ≤ s.pipe.beginSn
  lsn_le : s.fetcher.currentLsn ≤ s.lsnAt s.next
  scn : s.scnValid = true →
    (s.fetcher.currentScn = 0 ∨ ∃ entry ∈ s.log, s.fetcher.currentScn = entry.scn) ∧
    (s.peeked = false → ∀ (k : Nat) (entry : StreamEntry ρ), s.next ≤ k →
      s.log[k]? = some entry → s.fetcher.currentScn < entry.scn) ∧
    (s.peeked = true → ∃ entry, s.log[s.next]? = some entry ∧ s.fetcher.currentScn = entry.scn)
  refresh : RefreshInv (Safe refreshed s) (Old refreshed) s.pipe
  round : RoundInv refreshed s

theorem getElem?_snoc {α : Type u} {l : List α} {a b : α} {k : Nat} (h : (l ++ [a])[k]? = some b) :
    l[k]? = some b ∨ k = l.length ∧ b = a := by
  rcases Nat.lt_or_ge k l.length with hk | hk
  · rw [List.getElem?_append_left hk] at h
    exact .inl h
  · rw [List.getElem?_append_right hk, List.getElem?_singleton] at h
    obtain ⟨hzero, hb⟩ := ite_none_right_eq_some.mp h
    exact .inr ⟨by omega, (some_inj.mp hb).symm⟩

/-- What consuming a block pushes is the transaction that ends in it. -/
theorem consume_ring (hblock : entry.block.wellFormed entry.scn = true) :
    (s.consume entry).pipe.ring = s.pipe.ring ∧
        (s.consume entry).fetcher.ring = s.fetcher.ring ∨
      ∃ info, (s.consume entry).pipe.ring = s.pipe.ring ++ [info] ∧
        (s.consume entry).fetcher.ring = s.fetcher.ring ++ [info.txId] ∧
        entry.block.hasCommit = true ∧ entry.block.endsTx = some info.txId ∧
        entry.block.txId? = some info.txId ∧ info.commitVersion = entry.scn ∧
        (s.consume entry).fetcher.find info.txId = some info := by
  obtain ⟨-, hspec⟩ := handleBlock_spec s.fetcher (s.lsnAt s.next) entry.size hblock
  rcases hspec with ⟨hnone, hids⟩ | ⟨info, hcommit, hends, hid, hscn, hpushed, hids, hfind⟩
  · refine .inl ⟨?_, hids⟩
    simp [StreamState.consume, hnone]
  · refine .inr ⟨info, ?_, hids, hcommit, hends, hid, hscn, hfind⟩
    simp [StreamState.consume, hpushed]

/-! ### The log and the ring -/

namespace LogInv

section

variable (h : LogInv s)

include h

theorem scn_lt {j k : Nat} {earlier later : StreamEntry ρ}
    (hjk : j < k) (hearlier : s.log[j]? = some earlier) (hlater : s.log[k]? = some later) :
    earlier.Before later := by
  obtain ⟨hk, rfl⟩ := List.getElem?_eq_some_iff.mp hlater
  obtain ⟨hj, rfl⟩ := List.getElem?_eq_some_iff.mp hearlier
  exact pairwise_iff_getElem.mp h.log.1 j k hj hk hjk

theorem ring_lt_log (htx : tx ∈ s.pipe.ring)
    {k : Nat} (hk : s.next ≤ k) (hentry : s.log[k]? = some entry) :
    tx.commitVersion < entry.scn ∧ entry.block.txId? ≠ some tx.txId := by
  obtain ⟨j, earlier, hj, hearlier, hends, hscn⟩ := h.ring_consumed tx htx
  obtain ⟨hlt, hended⟩ := h.scn_lt (Nat.lt_of_lt_of_le hj hk) hearlier hentry
  refine ⟨hscn ▸ hlt, ?_⟩
  rcases hended with hnone | hne
  · simp [hends] at hnone
  · exact fun heq => hne (hends.trans heq.symm)

theorem ring_le_clock (htx : tx ∈ s.pipe.ring) :
    tx.commitVersion ≤ s.clock := by
  obtain ⟨j, entry, -, hentry, -, hscn⟩ := h.ring_consumed tx htx
  rw [hscn]
  exact (h.log.2 entry (mem_of_getElem? hentry)).2.1

theorem append (hpos : 0 < entry.scn)
    (hsize : 0 < entry.size) (hblock : entry.block.wellFormed entry.scn = true)
    (hbefore : ∀ earlier ∈ s.log, earlier.Before entry) :
    LogInv { s with log := s.log ++ [entry], clock := max s.clock entry.scn } :=
  { h with
    log := by
      refine ⟨pairwise_append.mpr ⟨h.log.1, pairwise_singleton _ _, ?_⟩, ?_⟩
      · intro earlier hearlier later hlater
        obtain rfl := mem_singleton.mp hlater
        exact hbefore earlier hearlier
      intro other hother
      rcases mem_append.mp hother with hold | hnew
      · obtain ⟨hpos, hle, hrest⟩ := h.log.2 other hold
        exact ⟨hpos, hle.trans (Nat.le_max_left _ _), hrest⟩
      · obtain rfl := mem_singleton.mp hnew
        exact ⟨hpos, Nat.le_max_right _ _, hsize, hblock⟩
    next_le := by
      rw [length_append]
      exact le_add_right_of_le h.next_le
    ring_consumed := by
      intro tx htx
      obtain ⟨j, earlier, hj, hearlier, hrest⟩ := h.ring_consumed tx htx
      refine ⟨j, earlier, hj, ?_, hrest⟩
      rw [List.getElem?_append_left (Nat.lt_of_lt_of_le hj h.next_le)]
      exact hearlier }

theorem initPosition (hready : s.ready = false) (fromZero ok : Bool) :
    LogInv (s.initPosition fromZero ok) :=
  { h with
    next_le := Nat.zero_le _
    ring_consumed := by
      intro tx htx
      obtain ⟨j, entry, hj, -⟩ := h.ring_consumed tx htx
      have hnext := h.not_ready hready
      omega
    not_ready := fun _ => rfl }

theorem pipe_push (pushes : List (TxInfo ρ)) :
    ∃ lo, PipeInv { s.pipe with ring := s.pipe.ring ++ pushes } lo := by
  obtain ⟨lo, hpipe⟩ := h.pipe
  refine ⟨lo, ?_⟩
  induction pushes using List.reverseRecOn with
  | nil => simpa using hpipe
  | append_singleton pushes tx ih =>
    rw [← append_assoc]
    exact ih.push tx

/-- A consumed transaction ends in the entry, and is newer than those of the ring. -/
theorem consume (hentry : s.log[s.next]? = some entry) (hready : s.ready = true) :
    LogInv (s.consume entry) := by
  have hring := consume_ring (s := s) (h.log.2 entry (mem_of_getElem? hentry)).2.2.2
  have hold : ∀ tx ∈ s.pipe.ring, ∃ j earlier, j < s.next + 1 ∧ s.log[j]? = some earlier ∧
      earlier.block.endsTx = some tx.txId ∧ tx.commitVersion = earlier.scn := by
    intro tx htx
    obtain ⟨j, earlier, hj, hrest⟩ := h.ring_consumed tx htx
    exact ⟨j, earlier, lt_succ_of_lt hj, hrest⟩
  exact
    { h with
      pipe := h.pipe_push _
      next_le := (List.getElem?_eq_some_iff.mp hentry).1
      ring_consumed := by
        intro tx htx
        rcases hring with ⟨hring, -⟩ | ⟨info, hring, -, -, hends, -, hscn, -⟩
        · exact hold tx (hring ▸ htx)
        rw [hring] at htx
        rcases mem_append.mp htx with hmem | hnew
        · exact hold tx hmem
        · obtain rfl := mem_singleton.mp hnew
          exact ⟨s.next, entry, lt_succ_self _, hentry, hends, hscn⟩
      ring_sorted := by
        rcases hring with ⟨hring, -⟩ | ⟨info, hring, -, -, -, hid, hscn, -⟩
        · rw [hring]
          exact h.ring_sorted
        rw [hring]
        refine pairwise_append.mpr ⟨h.ring_sorted, pairwise_singleton _ _, ?_⟩
        intro earlier hearlier later hlater
        obtain rfl := mem_singleton.mp hlater
        obtain ⟨hversion, hne⟩ := h.ring_lt_log hearlier le_rfl hentry
        refine ⟨hscn ▸ hversion, fun heq => hne ?_⟩
        rw [hid, heq]
      not_ready := fun hnot => by
        have hnot : s.ready = false := hnot
        simp [hready] at hnot }

theorem setClock {clock : Nat} (hclock : s.clock ≤ clock) (round : Round) :
    LogInv { s with clock := clock, round := round } :=
  { h with
    log := ⟨h.log.1, fun entry hentry =>
      let ⟨hpos, hle, hrest⟩ := h.log.2 entry hentry
      ⟨hpos, hle.trans hclock, hrest⟩⟩ }

theorem setPipe {pipe : Pipeline ρ} (hpipe : ∃ lo, PipeInv pipe lo)
    (hring : pipe.ring = s.pipe.ring) (round : Round) :
    LogInv { s with pipe := pipe, round := round } :=
  { h with
    pipe := hpipe
    ring_consumed := by rw [hring]; exact h.ring_consumed
    ring_sorted := by rw [hring]; exact h.ring_sorted }

theorem pipe_refresh (scn : Nat) :
    ∃ lo, PipeInv { s.pipe with refreshScn := max s.pipe.refreshScn scn } lo := by
  obtain ⟨lo, hpipe⟩ := h.pipe
  exact ⟨lo, { hpipe with batch := fun i batch hb => { hpipe.batch i batch hb with } }⟩

theorem step {event : StreamEvent ρ} {s' : StreamState ρ}
    (hstep : s.step executorCount event = some s') : LogInv s' := by
  cases event with
  | append =>
    obtain ⟨⟨-, hpos, hsize, hblock, hbefore⟩, hs⟩ := ite_none_right_eq_some.mp hstep
    cases hs
    exact h.append hpos hsize hblock hbefore
  | initPosition fromZero ok =>
    obtain ⟨⟨-, hready⟩, hs⟩ := ite_none_right_eq_some.mp hstep
    cases hs
    exact h.initPosition hready fromZero ok
  | consume =>
    simp only [StreamState.step] at hstep
    cases hentry : s.log[s.next]? with
    | none => simp [hentry] at hstep
    | some =>
      simp only [hentry] at hstep
      obtain ⟨⟨-, hready⟩, hs⟩ := ite_none_right_eq_some.mp hstep
      cases hs
      exact h.consume hentry hready
  | startRound | readGts =>
    obtain ⟨-, hs⟩ := ite_none_right_eq_some.mp hstep
    cases hs
    exact h.setClock (Nat.le_max_left _ _) _
  | readTxInfo | readMaxLsn =>
    obtain ⟨-, hs⟩ := ite_none_right_eq_some.mp hstep
    cases hs
    exact h.setClock le_rfl _
  | updateRefreshScn =>
    simp only [StreamState.step] at hstep
    split at hstep
    next =>
      cases hstep
      exact h.setPipe (h.pipe_refresh _) rfl _
    next => cases hstep
  | failRound =>
    cases hstep
    exact h.setClock le_rfl _
  | release =>
    simp only [StreamState.step] at hstep
    cases htx : s.pipe.ring[s.released]? with
    | none => simp [htx] at hstep
    | some =>
      simp only [htx] at hstep
      obtain ⟨-, hs⟩ := ite_none_right_eq_some.mp hstep
      cases hs
      exact { h with }
  | pipe =>
    obtain ⟨hevent, hs⟩ := ite_none_right_eq_some.mp hstep
    obtain ⟨pipe, hpipe, rfl⟩ := map_eq_some_iff.mp hs
    obtain ⟨lo, hinv⟩ := h.pipe
    exact h.setPipe (hinv.step hpipe) (Pipeline.Onward.step hevent hpipe).1 _

end

theorem init {log : List (StreamEntry ρ)} {clock : Nat} (hlog : LogOk log clock) :
    LogInv (StreamState.init refreshed log clock) where
  pipe := ⟨0, PipeInv.init refreshed⟩
  log := hlog
  next_le := Nat.zero_le _
  ring_consumed := by simp [StreamState.init, Pipeline.init]
  ring_sorted := List.Pairwise.nil
  not_ready := fun _ => rfl

theorem run {clock : Nat} {log : List (StreamEntry ρ)}
    {events : List (StreamEvent ρ)} (hlog : LogOk log clock)
    (hrun : events.foldlM (StreamState.step executorCount)
      (StreamState.init refreshed log clock) = some s) : LogInv s :=
  (Execution.of_foldlM hrun).invariant (init hlog) fun _ _ _ h hnext => h.step hnext

end LogInv

namespace StreamInv

section

variable (h : StreamInv refreshed s)

include h

theorem refreshPoint :
    RefreshPoint s.pipe.ring (Old refreshed) (Safe refreshed s) where
  mono := by
    rintro scn n m hle ⟨hclock, hlog, hring⟩
    exact ⟨hclock, hlog, fun k tx hk => hring k tx (hle.trans hk)⟩
  batch := by
    intro scn start txs tx hheld htx hscn
    obtain ⟨i, hi, rfl⟩ := mem_iff_getElem.mp htx
    have hget : s.pipe.ring[start + i]? = some txs[i] := by
      rw [← List.getElem?_drop]
      exact (prefix_iff_getElem?.mp hheld) i hi
    have hmem := mem_of_getElem? hget
    refine ⟨hscn.trans (h.ring_le_clock hmem), ?_, ?_⟩
    · intro k entry hk hentry _ _
      exact Nat.lt_of_le_of_lt hscn (h.ring_lt_log hmem hk hentry).1
    intro k later hk hlater _
    obtain ⟨hklt, hkget⟩ := List.getElem?_eq_some_iff.mp hlater
    obtain ⟨hilt, higet⟩ := List.getElem?_eq_some_iff.mp hget
    have hsorted := pairwise_iff_getElem.mp h.ring_sorted (start + i) k hilt hklt (by omega)
    rw [hkget, higet] at hsorted
    exact Nat.lt_of_le_of_lt hscn hsorted.1
  old := by
    rintro scn n d tx ⟨-, -, hring⟩ hle htx hscn
    refine Nat.le_of_not_lt fun hfresh => ?_
    have hlt := hring d tx hle htx hfresh
    omega

theorem drained (hempty : s.fetcher.txInfo = []) :
    s.pipe.ring.length ≤ s.pipe.applied.length := by
  obtain ⟨lo, hpipe⟩ := h.pipe
  have hreleased : s.pipe.ring.length ≤ s.released := by
    by_contra hlt
    have hlt := Nat.lt_of_not_le hlt
    have hlive := h.live s.released _ le_rfl (List.getElem?_eq_getElem hlt)
    simp [find, hempty] at hlive
  have hbegin : s.pipe.beginSn ≤ s.pipe.applied.length := by
    have hlength := congrArg List.length hpipe.applied_eq
    rw [length_map, length_take, Nat.min_eq_left hpipe.applied_le_ring] at hlength
    have hsn := hpipe.beginSn_eq
    have hle : s.pipe.popping lo ≤ s.pipe.committing lo := by
      unfold Pipeline.popping Pipeline.committing
      rcases hb : s.pipe.batches[lo]? with _ | batch
      · exact le_rfl
      have hinv := hpipe.batch lo batch hb
      have hpopped := hinv.popped_le
      have hcommitted := hinv.releasing_imp
      simp only [map_some, getD_some]
      split_ifs with hdone
      · exact hpopped
      · cases hphase : batch.phase <;>
          simp_all [BatchPhase.popped, BatchPhase.IsReleasing]
    omega
  have hle := h.released_le
  omega

end

theorem safe_of_drained {clock scn n : Nat} (hclock : scn ≤ clock)
    (hlog : ∀ (k : Nat) (entry : StreamEntry ρ), s.next ≤ k → s.log[k]? = some entry →
      entry.block.hasCommit = true → scn < entry.scn) (hring : s.pipe.ring.length ≤ n) :
    Safe refreshed { s with clock := clock } scn n := by
  refine ⟨hclock, fun k entry hk hentry hcommit _ => hlog k entry hk hentry hcommit, ?_⟩
  intro k tx hk htx
  have hlt := (List.getElem?_eq_some_iff.mp htx).1
  change k < s.pipe.ring.length at hlt
  omega

/-! ### The steps of an undisturbed stream -/

/-- The clock runs ahead of every refresh point, so a commit appended later is above it. -/
theorem append (h : StreamInv refreshed s)
    (hscn : entry.block.hasCommit = true → s.clock < entry.scn)
    (hpos : 0 < entry.scn) (hbefore : ∀ earlier ∈ s.log, earlier.Before entry)
    (hquiet : s.round = .caughtUp → entry.block.hasCommit = false)
    (hlog : LogInv { s with log := s.log ++ [entry], clock := max s.clock entry.scn }) :
    StreamInv refreshed { s with log := s.log ++ [entry], clock := max s.clock entry.scn } := by
  have hsafe : ∀ scn n, Safe refreshed s scn n →
      Safe refreshed { s with log := s.log ++ [entry], clock := max s.clock entry.scn } scn n := by
    rintro scn n ⟨hclock, hlog, hring⟩
    refine ⟨hclock.trans (Nat.le_max_left _ _), ?_, hring⟩
    intro k later hk hlater hcommit hfresh
    rcases getElem?_snoc hlater with hold | ⟨-, rfl⟩
    · exact hlog k later hk hold hcommit hfresh
    · exact Nat.lt_of_le_of_lt hclock (hscn hcommit)
  exact
    { h with
      toLogInv := hlog
      lsn_le := by
        refine h.lsn_le.trans (Nat.le_of_eq ?_)
        rw [lsnAt, lsnAt, take_append_of_le_length h.next_le]
      scn := by
        intro hvalid
        obtain ⟨hfrom, hahead, hpeek⟩ := h.scn hvalid
        refine ⟨hfrom.imp_right fun ⟨earlier, hearlier, hsame⟩ =>
          ⟨earlier, mem_append_left _ hearlier, hsame⟩, ?_, ?_⟩
        · intro hpeeked k later hk hlater
          rcases getElem?_snoc hlater with hold | ⟨-, rfl⟩
          · exact hahead hpeeked k later hk hold
          rcases hfrom with hzero | ⟨earlier, hearlier, hsame⟩
          · exact hzero ▸ hpos
          · exact hsame ▸ (hbefore earlier hearlier).1
        intro hpeeked
        obtain ⟨first, hfirst, hsame⟩ := hpeek hpeeked
        refine ⟨first, ?_, hsame⟩
        rw [List.getElem?_append_left (List.getElem?_eq_some_iff.mp hfirst).1]
        exact hfirst
      refresh := h.refresh.weaken hsafe
      round := by
        have hround := h.round
        unfold RoundInv at hround ⊢
        cases hs : s.round with
        | idle | started => trivial
        | txInfoEmpty => simpa only [hs] using hround
        | caughtUp =>
          simp only [hs] at hround ⊢
          refine ⟨hround.1, ?_⟩
          intro k later hk hlater
          rcases getElem?_snoc hlater with hold | ⟨-, rfl⟩
          · exact hround.2 k later hk hold
          · exact hquiet hs
        | advance =>
          simp only [hs] at hround ⊢
          exact hsafe _ _ hround }

theorem initPosition (h : StreamInv refreshed s) (hready : s.ready = false)
    (hround : s.round = .idle) (fromZero ok : Bool) :
    StreamInv refreshed (s.initPosition fromZero ok) := by
  have hnext := h.not_ready hready
  have hpeek : (if fromZero then none else s.log.head?) = none ∨
      ∃ entry, (if fromZero then none else s.log.head?) = some entry ∧ s.log[0]? = some entry := by
    cases fromZero with
    | true => exact .inl rfl
    | false =>
      rcases hhead : s.log.head? with _ | entry
      · exact .inl (by simp)
      · exact .inr ⟨entry, by simp, by rw [← hhead, List.head?_eq_getElem?]⟩
  have hsafe : ∀ scn n, Safe refreshed s scn n →
      Safe refreshed (s.initPosition fromZero ok) scn n := by
    rintro scn n ⟨hclock, hlog, hring⟩
    exact ⟨hclock, fun k entry _ => hlog k entry (hnext ▸ Nat.zero_le k), hring⟩
  exact
    { h with
      toLogInv := h.toLogInv.initPosition hready fromZero ok
      live := by
        intro k tx hk htx
        exact h.live k tx hk htx
      lsn_le := Nat.zero_le _
      scn := by
        intro _
        rcases hpeek with hnone | ⟨entry, hsome, hentry⟩
        · simp only [StreamState.initPosition, hnone, map_none, getD_none, isSome_none]
          refine ⟨.inl trivial, ?_, by simp⟩
          intro _ k entry _ hentry
          exact (h.log.2 entry (mem_of_getElem? hentry)).1
        · simp only [StreamState.initPosition, hsome, map_some, getD_some, isSome_some]
          exact ⟨.inr ⟨entry, mem_of_getElem? hentry, rfl⟩, by simp, fun _ => ⟨entry, hentry, rfl⟩⟩
      refresh := h.refresh.weaken hsafe
      round := by
        simp only [RoundInv, StreamState.initPosition, hround] }

theorem lsnAt_succ (hentry : s.log[s.next]? = some entry) :
    s.lsnAt (s.next + 1) = s.lsnAt s.next + entry.size := by
  obtain ⟨hlt, rfl⟩ := List.getElem?_eq_some_iff.mp hentry
  rw [lsnAt, lsnAt, take_succ_eq_append_getElem hlt, map_append, List.sum_append]
  rfl

theorem handleBlock_cursor (f : Fetcher ρ) (lsn size scn : Nat) (block : LogBlock ρ) :
    (f.handleBlock lsn size scn block).currentLsn = lsn + size ∧
        (f.handleBlock lsn size scn block).currentScn = scn ∨
      f.handleBlock lsn size scn block = f := by
  cases block with
  | skipped => exact .inl ⟨rfl, rfl⟩
  | trans txId readable =>
    cases readable with
    | true => exact .inl ⟨rfl, rfl⟩
    | false => exact .inr rfl

section

variable (h : StreamInv refreshed s)

include h

/-- A consumed transaction moves from the log to the ring, with the scn as its version. -/
theorem safe_consume
    (hentry : s.log[s.next]? = some entry) {scn n : Nat} (hsafe : Safe refreshed s scn n) :
    Safe refreshed (s.consume entry) scn n := by
  obtain ⟨hclock, hlog, hring⟩ := hsafe
  refine ⟨hclock, fun k later hk => hlog k later (le_of_succ_le hk), ?_⟩
  intro k tx hk htx hfresh
  have hblock := (h.log.2 entry (mem_of_getElem? hentry)).2.2.2
  have hspec := (handleBlock_spec s.fetcher (s.lsnAt s.next) entry.size hblock).2
  simp only [StreamState.consume] at htx
  rcases hspec with ⟨hnone, -⟩ | ⟨info, hcommit, -, -, hscn, hpushed, -⟩
  · rw [hnone, append_nil] at htx
    exact hring k tx hk htx hfresh
  rw [hpushed] at htx
  rcases getElem?_snoc htx with hold | ⟨-, rfl⟩
  · exact hring k tx hk hold hfresh
  · rw [hscn] at hfresh ⊢
    exact hlog s.next entry le_rfl hentry hcommit hfresh

theorem refresh_push (pushes : List (TxInfo ρ)) :
    RefreshInv (Safe refreshed s) (Old refreshed)
      { s.pipe with ring := s.pipe.ring ++ pushes } := by
  obtain ⟨lo, hpipe⟩ := h.pipe
  refine { h.refresh with skip := ?_ }
  intro ctx tx hthread htx
  have hinv := hpipe.thread
  simp only [ThreadInv, show s.pipe.thread = .skip ctx from hthread] at hinv
  rw [List.getElem?_append_left hinv.2.2.2] at htx
  exact h.refresh.skip ctx tx hthread htx

/-- What the positions say once the entry is consumed. -/
theorem consume_scn (hentry : s.log[s.next]? = some entry) (hvalid : s.scnValid = true) :
    ((s.consume entry).fetcher.currentScn = 0 ∨
        ∃ earlier ∈ s.log, (s.consume entry).fetcher.currentScn = earlier.scn) ∧
      ∀ (k : Nat) (later : StreamEntry ρ), s.next + 1 ≤ k → s.log[k]? = some later →
        (s.consume entry).fetcher.currentScn < later.scn := by
  obtain ⟨hfrom, hahead, hpeek⟩ := h.scn hvalid
  have hbehind : ∀ (k : Nat) (later : StreamEntry ρ), s.next + 1 ≤ k →
      s.log[k]? = some later → entry.scn < later.scn := fun k later hk hlater =>
    (h.scn_lt hk hentry hlater).1
  have hcursor := handleBlock_cursor s.fetcher (s.lsnAt s.next) entry.size entry.scn entry.block
  simp only [StreamState.consume]
  rcases hcursor with ⟨-, hscn⟩ | hsame
  · rw [hscn]
    exact ⟨.inr ⟨entry, mem_of_getElem? hentry, rfl⟩, hbehind⟩
  rw [hsame]
  refine ⟨hfrom, fun k later hk hlater => ?_⟩
  cases hpeeked : s.peeked with
  | false => exact hahead hpeeked k later (le_of_succ_le hk) hlater
  | true =>
    obtain ⟨first, hfirst, hsame⟩ := hpeek hpeeked
    obtain rfl := some_inj.mp (hentry.symm.trans hfirst)
    rw [hsame]
    exact hbehind k later hk hlater

theorem consume_live (hentry : s.log[s.next]? = some entry) (k : Nat) (tx : TxInfo ρ)
    (hk : s.released ≤ k) (htx : (s.consume entry).pipe.ring[k]? = some tx) :
    ((s.consume entry).fetcher.find tx.txId).isSome = true := by
  have hblock := (h.log.2 entry (mem_of_getElem? hentry)).2.2.2
  have hkeep : ∀ tx ∈ s.pipe.ring,
      ((s.consume entry).fetcher.find tx.txId) = s.fetcher.find tx.txId := fun tx htx =>
    (handleBlock_spec s.fetcher (s.lsnAt s.next) entry.size hblock).1 tx.txId
      (h.ring_lt_log htx le_rfl hentry).2
  rcases consume_ring (s := s) hblock with ⟨hring, -⟩ | ⟨info, hring, -, -, -, -, -, hfind⟩
  · rw [hring] at htx
    rw [hkeep tx (mem_of_getElem? htx)]
    exact h.live k tx hk htx
  rw [hring] at htx
  rcases getElem?_snoc htx with hold | ⟨-, rfl⟩
  · rw [hkeep tx (mem_of_getElem? hold)]
    exact h.live k tx hk hold
  · rw [hfind]
    rfl

theorem consume (hentry : s.log[s.next]? = some entry) (hready : s.ready = true)
    (hround : s.round = .idle) : StreamInv refreshed (s.consume entry) :=
  { h with
    toLogInv := h.toLogInv.consume hentry hready
    ring_ids := by
      rcases consume_ring (s := s) (h.log.2 entry (mem_of_getElem? hentry)).2.2.2 with
        ⟨hring, hids⟩ | ⟨info, hring, hids, -⟩
      · rw [hring, hids, h.ring_ids]
      · rw [hring, hids, h.ring_ids, map_append]
        rfl
    live := h.consume_live hentry
    lsn_le := by
      change (s.fetcher.handleBlock _ _ _ _).currentLsn ≤ s.lsnAt (s.next + 1)
      rw [lsnAt_succ hentry]
      rcases handleBlock_cursor s.fetcher (s.lsnAt s.next) entry.size entry.scn entry.block with
        ⟨hlsn, -⟩ | hsame
      · exact Nat.le_of_eq hlsn
      · rw [hsame]
        exact le_add_right_of_le h.lsn_le
    scn := by
      intro hvalid
      obtain ⟨hfrom, hahead⟩ := h.consume_scn hentry hvalid
      exact ⟨hfrom, fun _ => hahead, fun hpeeked => by cases hpeeked⟩
    refresh := (h.refresh_push _).weaken fun _ _ => h.safe_consume hentry
    round := by
      simp only [RoundInv, StreamState.consume, hround] }

theorem setRound {clock : Nat} (hclock : s.clock ≤ clock)
    {round : Round} (hround : RoundInv refreshed { s with clock := clock, round := round }) :
    StreamInv refreshed { s with clock := clock, round := round } := by
  have hsafe : ∀ scn n, Safe refreshed s scn n →
      Safe refreshed { s with clock := clock, round := round } scn n :=
    fun scn n hsafe => ⟨hsafe.1.trans hclock, hsafe.2⟩
  exact
    { h with
      toLogInv := h.toLogInv.setClock hclock round
      refresh := h.refresh.weaken hsafe
      round := hround }

theorem readTxInfo : StreamInv refreshed
      { s with round := if s.fetcher.txInfo.isEmpty then .txInfoEmpty else .idle } := by
  refine h.setRound le_rfl ?_
  cases hempty : s.fetcher.txInfo.isEmpty with
  | true => exact h.drained (List.isEmpty_iff.mp hempty)
  | false => trivial

theorem next_eq_of_caughtUp (hlsn : s.maxLsn ≤ s.fetcher.currentLsn) : s.next = s.log.length := by
  refine Nat.le_antisymm h.next_le (Nat.le_of_not_lt fun hlt => ?_)
  have hentry := List.getElem?_eq_getElem hlt
  have hsize := (h.log.2 _ (mem_of_getElem? hentry)).2.2.1
  have hsucc := lsnAt_succ hentry
  have hmax : s.lsnAt (s.next + 1) ≤ s.maxLsn := by
    rw [maxLsn, lsnAt, lsnAt, take_length]
    nth_rewrite 2 [← take_append_drop (s.next + 1) s.log]
    rw [map_append, List.sum_append]
    exact Nat.le_add_right _ _
  have hle := h.lsn_le
  omega

theorem readMaxLsn (hround : s.round = .txInfoEmpty) (hpeeked : s.peeked = false) :
    StreamInv refreshed
      { s with
        round :=
          if s.lsnValid ∧ s.maxLsn ≤ s.fetcher.currentLsn then .caughtUp
          else if s.scnValid then .advance s.fetcher.currentScn
          else .idle } := by
  have hdrained := h.round
  simp only [RoundInv, hround] at hdrained
  refine h.setRound le_rfl ?_
  split_ifs with hcaught hvalid
  · refine ⟨hdrained, fun k entry hk hentry => ?_⟩
    have hnext := h.next_eq_of_caughtUp hcaught.2
    have hlt := (List.getElem?_eq_some_iff.mp hentry).1
    exact absurd (hnext ▸ hk) (Nat.not_le_of_lt hlt)
  · obtain ⟨hfrom, hahead, -⟩ := h.scn hvalid
    have hclock : s.fetcher.currentScn ≤ s.clock := by
      rcases hfrom with hzero | ⟨entry, hentry, hsame⟩
      · exact hzero ▸ Nat.zero_le _
      · exact hsame ▸ (h.log.2 entry hentry).2.1
    exact safe_of_drained hclock (fun k entry hk hentry _ => hahead hpeeked k entry hk hentry)
      hdrained
  · trivial

theorem readGts (hround : s.round = .caughtUp) (gts : Nat) :
    StreamInv refreshed { s with clock := max s.clock gts, round := .advance gts } := by
  have hcaught := h.round
  simp only [RoundInv, hround] at hcaught
  refine h.setRound (Nat.le_max_left _ _) ?_
  refine safe_of_drained (Nat.le_max_right _ _) (fun k entry hk hentry hcommit => ?_) hcaught.1
  rw [hcaught.2 k entry hk hentry] at hcommit
  cases hcommit

theorem updateRefreshScn {scn : Nat} (hround : s.round = .advance scn) :
    StreamInv refreshed
      { s with
        pipe := { s.pipe with refreshScn := max s.pipe.refreshScn scn }
        round := .idle } := by
  have hsafe := h.round
  simp only [RoundInv, hround] at hsafe
  exact
    { h with
      toLogInv := h.toLogInv.setPipe (h.pipe_refresh scn) rfl .idle
      refresh := h.refresh.raise hsafe
      round := trivial }

theorem release (htx : s.pipe.ring[s.released]? = some tx) (hbegin : s.released < s.pipe.beginSn) :
    StreamInv refreshed
      { s with
        fetcher := s.fetcher.releaseCommittedTx tx.txId
        released := s.released + 1 } :=
  { h with
    live := by
      intro k later hk hlater
      obtain ⟨hreleased, hget⟩ := List.getElem?_eq_some_iff.mp htx
      obtain ⟨hklt, hkget⟩ := List.getElem?_eq_some_iff.mp hlater
      have hsorted := pairwise_iff_getElem.mp h.ring_sorted _ _ hreleased hklt hk
      rw [hget, hkget] at hsorted
      rw [releaseCommittedTx, find_erase, if_neg hsorted.2.symm]
      exact h.live k later (le_of_succ_le hk) hlater
    released_le := hbegin }

theorem pipeStep {event : PipeEvent ρ} {pipe : Pipeline ρ} (hevent : event.isInternal = true)
    (hstep : s.pipe.step executorCount event = some pipe) :
    StreamInv refreshed { s with pipe := pipe } := by
  obtain ⟨lo, hpipe⟩ := h.pipe
  obtain ⟨hring, hbegin, happlied⟩ := Pipeline.Onward.step hevent hstep
  have hsafe : ∀ scn n, Safe refreshed s scn n → Safe refreshed { s with pipe := pipe } scn n := by
    rintro scn n ⟨hclock, hlog, hfirst⟩
    exact ⟨hclock, hlog, fun k tx hk htx => hfirst k tx hk (hring ▸ htx)⟩
  exact
    { h with
      toLogInv := h.toLogInv.setPipe (hpipe.step hstep) hring s.round
      ring_ids := by rw [hring]; exact h.ring_ids
      live := by rw [hring]; exact h.live
      released_le := h.released_le.trans hbegin
      refresh := (h.refresh.step h.refreshPoint hpipe hevent hstep).weaken hsafe
      round := by
        have hround := h.round
        unfold RoundInv at hround ⊢
        cases hs : s.round with
        | idle | started => trivial
        | txInfoEmpty =>
          simp only [hs] at hround ⊢
          rw [hring]
          exact hround.trans happlied
        | caughtUp =>
          simp only [hs] at hround ⊢
          rw [hring]
          exact ⟨hround.1.trans happlied, hround.2⟩
        | advance =>
          simp only [hs] at hround ⊢
          exact hsafe _ _ (h.refreshPoint.mono happlied hround) }

end

end StreamInv

/-- Between the read of the end of the log and the second GTS no transaction commits, and
positions are not compared while `current_scn_` is that of an entry not consumed. -/
def undisturbed (s : StreamState ρ) : StreamEvent ρ → Bool
  | .append entry => !(decide (s.round = .caughtUp) && entry.block.hasCommit)
  | .readMaxLsn => !s.peeked
  | _ => true

def undisturbedStep (executorCount : Nat) (s : StreamState ρ) (event : StreamEvent ρ) :
    Option (StreamState ρ) :=
  if s.undisturbed event then s.step executorCount event else none

namespace StreamInv

theorem step (h : StreamInv refreshed s) {event : StreamEvent ρ}
    {s' : StreamState ρ} (hstep : s.undisturbedStep executorCount event = some s') :
    StreamInv refreshed s' := by
  obtain ⟨hquiet, hstep⟩ := ite_none_right_eq_some.mp hstep
  cases event with
  | append =>
    obtain ⟨⟨hscn, hpos, -, -, hbefore⟩, hs⟩ := ite_none_right_eq_some.mp hstep
    have hlog := h.toLogInv.step hstep
    cases hs
    refine h.append hscn hpos hbefore (fun hround => ?_) hlog
    simpa [undisturbed, hround] using hquiet
  | initPosition fromZero ok =>
    obtain ⟨⟨hround, hready⟩, hs⟩ := ite_none_right_eq_some.mp hstep
    cases hs
    exact h.initPosition hready hround fromZero ok
  | consume =>
    simp only [StreamState.step] at hstep
    cases hentry : s.log[s.next]? with
    | none => simp [hentry] at hstep
    | some =>
      simp only [hentry] at hstep
      obtain ⟨⟨hround, hready⟩, hs⟩ := ite_none_right_eq_some.mp hstep
      cases hs
      exact h.consume hentry hready hround
  | startRound =>
    obtain ⟨-, hs⟩ := ite_none_right_eq_some.mp hstep
    cases hs
    exact h.setRound (Nat.le_max_left _ _) trivial
  | readTxInfo =>
    obtain ⟨-, hs⟩ := ite_none_right_eq_some.mp hstep
    cases hs
    exact h.readTxInfo
  | readMaxLsn =>
    obtain ⟨hround, hs⟩ := ite_none_right_eq_some.mp hstep
    cases hs
    refine h.readMaxLsn hround ?_
    simpa [undisturbed] using hquiet
  | readGts gts =>
    obtain ⟨hround, hs⟩ := ite_none_right_eq_some.mp hstep
    cases hs
    exact h.readGts hround gts
  | updateRefreshScn =>
    simp only [StreamState.step] at hstep
    split at hstep
    next scn hround =>
      cases hstep
      exact h.updateRefreshScn hround
    next => cases hstep
  | failRound =>
    cases hstep
    exact h.setRound le_rfl trivial
  | release =>
    simp only [StreamState.step] at hstep
    cases htx : s.pipe.ring[s.released]? with
    | none => simp [htx] at hstep
    | some =>
      simp only [htx] at hstep
      obtain ⟨hbegin, hs⟩ := ite_none_right_eq_some.mp hstep
      cases hs
      exact h.release htx hbegin
  | pipe =>
    obtain ⟨hevent, hs⟩ := ite_none_right_eq_some.mp hstep
    obtain ⟨pipe, hpipe, rfl⟩ := map_eq_some_iff.mp hs
    exact h.pipeStep hevent hpipe

theorem init {log : List (StreamEntry ρ)} {clock : Nat} (hlog : LogOk log clock)
    (hclock : refreshed ≤ clock) : StreamInv refreshed (StreamState.init refreshed log clock) where
  toLogInv := .init hlog
  ring_ids := rfl
  live := by simp [StreamState.init, Pipeline.init]
  released_le := Nat.le_refl 0
  lsn_le := Nat.le_refl 0
  scn := by simp [StreamState.init]
  refresh :=
    { refreshScn :=
        ⟨hclock, fun _ _ _ _ _ hfresh => hfresh, by simp [StreamState.init, Pipeline.init]⟩
      persistedScn :=
        ⟨hclock, fun _ _ _ _ _ hfresh => hfresh, by simp [StreamState.init, Pipeline.init]⟩
      bounded := by simp [StreamState.init, Pipeline.init]
      committed := by simp [StreamState.init, Pipeline.init]
      building := by simp [StreamState.init, Pipeline.init, Pipeline.building]
      skip := by simp [StreamState.init, Pipeline.init]
      skipped := by simp [StreamState.init, Pipeline.init] }
  round := trivial

theorem run {clock : Nat} {log : List (StreamEntry ρ)}
    {events : List (StreamEvent ρ)} (hlog : LogOk log clock) (hclock : refreshed ≤ clock)
    (hrun : events.foldlM (undisturbedStep executorCount)
      (StreamState.init refreshed log clock) = some s) : StreamInv refreshed s :=
  (Execution.of_foldlM hrun).invariant (init hlog hclock) fun _ _ _ h hnext => h.step hnext

end StreamInv

/-- As long as no round is disturbed, the dispatcher takes its skip branch only for
transactions that the batches of an earlier run have applied: those up to the
`refreshScn` it found persisted. -/
theorem skips_only_applied (refreshScn clock executorCount : Nat) (log : List (StreamEntry ρ))
    (hlog : LogOk log clock) (hclock : refreshScn ≤ clock) (events : List (StreamEvent ρ))
    (s : StreamState ρ)
    (hrun : events.foldlM (undisturbedStep executorCount) (init refreshScn log clock) = some s) :
    (∀ ctx tx, s.pipe.thread = .skip ctx → s.pipe.ring[s.pipe.dispatchSn]? = some tx →
        tx.commitVersion ≤ refreshScn) ∧
      ∀ entry ∈ s.pipe.applied, entry.2 = none → entry.1.commitVersion ≤ refreshScn := by
  have h := StreamInv.run hlog hclock hrun
  exact ⟨h.refresh.skip, h.refresh.skipped⟩

/-- Transaction 1, from its redo log to its commit log. -/
def committedEntry : StreamEntry Unit :=
  ⟨10, 5, .trans 1 true [{ log := .redo ⟨1, []⟩ }, { log := .commit none }]⟩

/-- The transaction was applied before the restart that finds it in the log again. -/
def replayedRun : List (StreamEvent Unit) :=
  [.initPosition false true, .consume] ++ List.replicate 4 (.pipe (.dispatch true))

theorem skips_only_applied_replayed :
    ∃ s, replayedRun.foldlM (undisturbedStep 1) (init 5 [committedEntry] 5) = some s ∧
      s.pipe.applied.map Prod.snd = [none] ∧
      ∀ entry ∈ s.pipe.applied, entry.2 = none → entry.1.commitVersion ≤ 5 := by
  refine ⟨_, rfl, rfl, ?_⟩
  have hlog : LogOk [committedEntry] 5 := by
    refine ⟨pairwise_singleton _ _, fun entry hentry => ?_⟩
    obtain rfl := mem_singleton.mp hentry
    decide
  exact (skips_only_applied 5 5 1 [committedEntry] hlog (by decide) replayedRun _ rfl).2

/-- Every run applies or skips each transaction once, in the order of the commit logs. -/
theorem applied_in_commit_order {clock : Nat} {log : List (StreamEntry ρ)}
    {events : List (StreamEvent ρ)} (hlog : LogOk log clock)
    (hrun : events.foldlM (step executorCount) (init refreshed log clock) = some s) :
    ((s.pipe.applied.map Prod.fst).Pairwise fun earlier later =>
      earlier.commitVersion < later.commitVersion ∧ earlier.txId ≠ later.txId) ∧
      ∀ done ∈ s.pipe.applied, ∃ entry ∈ s.log,
        entry.block.endsTx = some done.1.txId ∧ entry.scn = done.1.commitVersion := by
  have h := LogInv.run hlog hrun
  obtain ⟨lo, hpipe⟩ := h.pipe
  have happlied := hpipe.applied_eq
  refine ⟨?_, fun done hdone => ?_⟩
  · rw [happlied]
    exact h.ring_sorted.sublist (take_sublist ..)
  have hring := mem_of_mem_take (happlied ▸ mem_map_of_mem hdone)
  obtain ⟨j, entry, -, hentry, hends, hscn⟩ := h.ring_consumed done.1 hring
  exact ⟨entry, mem_of_getElem? hentry, hends, hscn.symm⟩

/-- Transaction 2, after the first one. -/
def laterEntry : StreamEntry Unit :=
  ⟨10, 8, .trans 2 true [{ log := .redo ⟨1, []⟩ }, { log := .commit none }]⟩

/-- The batch of the first transaction fails and takes the one of the second with it; after the
recovery both are in one batch. -/
def recoveredLogRun : List (StreamEvent Unit) :=
  .initPosition false true :: flatten
    [.consume :: dispatchOne.map .pipe, .consume :: dispatchOne.map .pipe,
      [.startSubTask 1 0 false, .finishSubTask 1 0, .startSubTask 0 0 true, .markSubTask 0 0,
        .finishSubTask 0 0].map .pipe,
      replicate 5 (.pipe (.finishBatch 0 true)), replicate 2 (.pipe (.finishBatch 1 true)),
      replicate 5 (.pipe (.dispatch true)),
      [true, true, true, true, false, true, true, true].map fun ok => .pipe (.dispatch ok),
      [.startSubTask 2 0 false, .finishSubTask 2 0].map .pipe,
      replicate 9 (.pipe (.finishBatch 2 true))]

theorem applied_in_commit_order_recovered :
    ∃ s, recoveredLogRun.foldlM (step 1) (init 0 [committedEntry, laterEntry] 8) = some s ∧
      s.pipe.applied.map (fun done => (done.1.txId, done.2)) = [(1, some 2), (2, some 2)] ∧
      ((s.pipe.applied.map Prod.fst).Pairwise fun earlier later =>
        earlier.commitVersion < later.commitVersion ∧ earlier.txId ≠ later.txId) ∧
      ∀ done ∈ s.pipe.applied, ∃ entry ∈ s.log,
        entry.block.endsTx = some done.1.txId ∧ entry.scn = done.1.commitVersion := by
  have hrun : (recoveredLogRun.foldlM (step 1) (init 0 [committedEntry, laterEntry] 8)).map
      (fun s => s.pipe.applied.map fun done => (done.1.txId, done.2)) =
        some [(1, some 2), (2, some 2)] := by decide +kernel
  obtain ⟨s, hs, hbatches⟩ := Option.map_eq_some_iff.mp hrun
  have hlog : LogOk [committedEntry, laterEntry] 8 := ⟨by decide, by decide⟩
  obtain ⟨hsorted, hlogged⟩ := applied_in_commit_order hlog hs
  exact ⟨s, hs, hbatches, hsorted, hlogged⟩

/-- The transaction commits after a round has compared positions and before that round
reads its second GTS. -/
def commitBeforeGtsRun : List (StreamEvent Unit) :=
  [.initPosition true true, .startRound 1, .readTxInfo, .readMaxLsn, .append committedEntry,
      .readGts 10, .updateRefreshScn, .consume] ++
    List.replicate 4 (.pipe (.dispatch true))

/-- The position is looked up and the schema is not ready yet; a round then takes the scn
of the entry at that position. -/
def peekedRun : List (StreamEvent Unit) :=
  [.append committedEntry, .initPosition false false, .startRound 6, .readTxInfo, .readMaxLsn,
      .updateRefreshScn, .initPosition false true, .consume] ++
    List.replicate 4 (.pipe (.dispatch true))

/-- In both runs no batch was ever built, and the transaction is skipped. -/
theorem committed_skipped : [commitBeforeGtsRun, peekedRun].Forall fun events => ∃ s,
      events.foldlM (step 1) (init 0 [] 0) = some s ∧ s.pipe.batches.length = 0 ∧
        s.pipe.applied.map (fun entry => (entry.1.commitVersion, entry.2)) = [(5, none)] := by
  exact ⟨⟨_, rfl, rfl, rfl⟩, ⟨_, rfl, rfl, rfl⟩⟩

end StreamState

end SeekDB.ChangeStream
