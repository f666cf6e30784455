/-
A transaction's callbacks with their logs.

The journal adds to the callback list the callbacks that got a log, in the order
in which they got it.  Logs have increasing numbers, all callbacks of a log get
its number at once, and callbacks are released in between by any of the
operations that release them.  The checksum of the transaction is the one of the
journal, whatever was released when.
-/
import SeekDB.TxCallbackChecksum

namespace SeekDB.TxCallbackList

open TxCallback List PointerList

variable {done batch : List TxCallback} {mode : AppendMode} {scn : Nat}

structure Journal where
  list : TxCallbackList
  logged : List TxCallback

namespace Journal

def empty : Journal := ⟨.empty, []⟩

/-- The callbacks that get their log by a call. -/
def loggedBy (list : TxCallbackList) : Event → List TxCallback
  | .append callback mode beforeAppend =>
    if mode.forReplay = true ∧
        (list.appendCallback callback mode beforeAppend).1 = .success then
      [prepared mode callback]
    else []
  | .appendBatch batch length mode beforeAppend =>
    if mode.forReplay = true ∧
        (list.appendCallbacks batch length mode beforeAppend).1 = .success then
      batch.map (prepared mode)
    else []
  | .submitLog scope scn =>
    (list.scopeCallbacks scope).map (logSubmittedCb · scn)
  | _ => []

/-- The number of a log that is not before any other and of which nothing is summed up yet. -/
structure NewLog (journal : Journal) (scn : Nat) : Prop where
  pos : 0 < scn
  lt_max : scn < obMaxScnTsNs
  later : ∀ item ∈ journal.logged, item.scn ≤ scn
  unsummed : journal.list.checksumScn ≤ scn

/-- The calls of a schedule: callbacks are appended, and logged later or, in
replay, at once and at the end of the list, where a log may come in several calls;
and callbacks are released by operations that succeed.  Callbacks that replay inserts
in front of `parallel_start_pos_` are left out. -/
def Scheduled (journal : Journal) : Event → Prop
  | .append callback mode _ =>
    mode.forReplay = true → journal.NewLog callback.scn ∧
      journal.list.appendPos mode = journal.list.getTail
  | .appendBatch batch _ mode _ =>
    mode.forReplay = true → (∃ scn, journal.NewLog scn ∧ ∀ item ∈ batch, item.scn = scn) ∧
      journal.list.appendPos mode = journal.list.getTail
  | .submitLog _ scn => journal.NewLog scn
  | .syncLogSucc scn _ => scn ≠ obMaxScnTsNs
  | .replaySucc scn => scn ≠ obMaxScnTsNs
  | .fastCommit mgr stopScn checkpoint => mgr.skipChecksumCalc = false ∧
    (journal.list.removeCallbacksForFastCommit mgr stopScn checkpoint).1 = .success
  | .removeMemtable mgr memtableSet stopScn checkpoint => mgr.skipChecksumCalc = false ∧
    (journal.list.removeCallbacksForRemoveMemtable mgr memtableSet stopScn checkpoint).1 = .success
  | .rollbackTo mgr toSeq fromSeq replayScn rollback => mgr.skipChecksumCalc = false ∧
    (journal.list.removeCallbacksForRollbackTo mgr toSeq fromSeq replayScn rollback).1 = .success
  | .calcChecksumBefore mgr scn => mgr.skipChecksumCalc = false ∧
    (journal.list.txCalcChecksumBeforeScn mgr scn).1 = .success
  | _ => False

def Step (journal : Journal) (event : Event) (next : Journal) : Prop :=
  journal.list.Permitted event ∧ journal.Scheduled event ∧
    next = ⟨(journal.list.call event).2, journal.logged ++ loggedBy journal.list event⟩

end Journal

variable {σ : Type} {list : TxCallbackList} {mgr : CallbackMgr} {logged : List TxCallback}
  {journal : Journal}

/-! Callbacks that get their log. -/

theorem Summed.link_leader
    (h : Summed list logged) (hnodup : list.addrs.Nodup) (hmode : mode.forReplay = false)
    (hbatch : Appendable list batch mode) (length dataSize : Int) (cursor : Option Nat) :
    Summed (list.link batch length dataSize cursor mode) logged := by
  have hpos : list.appendPos mode = list.getTail := by simp [appendPos, hmode]
  have hcallbacks : (list.link batch length dataSize cursor mode).callbacks =
      list.callbacks ++ batch := by
    simp only [link, hpos, getTail, getPrev]
    exact insertBehind_last hnodup batch
  have hneed : ∀ item ∈ batch, item.needSubmitLog = true := by
    intro item hitem
    rw [hbatch.need item hitem, hmode]
    rfl
  have hscn := hbatch.unlogged hmode
  have hnumbered : ∀ item ∈ list.callbacks ++ batch, Numbered item := by
    intro item hitem
    rcases mem_append.mp hitem with hin | hin
    · exact h.numbered item hin
    · refine ⟨fun _ => hscn item hin, fun hdone => ?_⟩
      rw [hneed item hin] at hdone
      exact Bool.noConfusion hdone
  refine ⟨by rw [hcallbacks]; exact hnumbered, ?_, ?_, h.logged_done, h.logged_sorted, ?_,
    h.sum, h.behind, h.checksum, h.syncScn⟩
  · rw [hcallbacks, pairwise_append]
    refine ⟨h.sorted, ?_, ?_⟩
    · apply pairwise_of_forall_mem_list
      intro left hleft right hright
      rw [hscn left hleft, hscn right hright]
    · intro left hleft right hright
      rw [hscn right hright]
      exact (h.numbered left hleft).scn_le_max
  · rw [hcallbacks]
    intro item hitem hdone
    rcases mem_append.mp hitem with hin | hin
    · exact h.linked item hin hdone
    · rw [hneed item hin] at hdone
      exact Bool.noConfusion hdone
  · rw [hcallbacks, unsummed_append,
      unsummed_eq_nil (fun item hitem => .inl (hneed item hitem)), append_nil]
    exact h.pending

theorem Summed.newLog {front old run back : List TxCallback} {next : TxCallbackList}
    (h : Summed list logged) (hnew : Journal.NewLog ⟨list, logged⟩ scn)
    (hsplit : list.callbacks = front ++ old ++ back)
    (hfront : ∀ item ∈ front, item.needSubmitLog = false)
    (hold : ∀ item ∈ old, item.needSubmitLog = true)
    (hback : ∀ item ∈ back, item.needSubmitLog = true)
    (hrun : ∀ item ∈ run, item.needSubmitLog = false ∧ item.scn = scn)
    (hcallbacks : next.callbacks = front ++ run ++ back)
    (hsum : next.batchChecksum = list.batchChecksum)
    (hchecksumScn : next.checksumScn = list.checksumScn) (hchecksum : next.checksum = list.checksum)
    (hsyncScn : next.syncScn = list.syncScn) :
    Summed next (logged ++ run) := by
  have hfrontMem : ∀ item ∈ front, item ∈ list.callbacks := by
    intro item hitem
    rw [hsplit]
    exact mem_append_left _ (mem_append_left _ hitem)
  have hbackMem : ∀ item ∈ back, item ∈ list.callbacks := by
    intro item hitem
    rw [hsplit]
    exact mem_append_right _ hitem
  have hrunNumbered : ∀ item ∈ run, Numbered item := by
    intro item hitem
    obtain ⟨hdone, hscn⟩ := hrun item hitem
    refine ⟨fun hwait => ?_, fun _ => ?_⟩
    · rw [hdone] at hwait
      exact Bool.noConfusion hwait
    · rw [hscn]
      exact ⟨hnew.pos, hnew.lt_max⟩
  have hrunHigh : ∀ item ∈ run, ¬Skipped list.checksumScn item := by
    intro item hitem hskip
    obtain ⟨hdone, hscn⟩ := hrun item hitem
    rcases hskip with hwait | hlow
    · rw [hdone] at hwait
      exact Bool.noConfusion hwait
    rw [hscn] at hlow
    exact absurd hnew.unsummed (Nat.not_le_of_lt hlow)
  have hrunSummed : summed list.checksumScn run = [] :=
    filter_eq_nil_iff.mpr (fun item hitem => by simp [hrunHigh item hitem])
  have hrunSorted : run.Pairwise (fun left right => left.scn ≤ right.scn) := by
    apply pairwise_of_forall_mem_list
    intro left hleft right hright
    rw [(hrun left hleft).2, (hrun right hright).2]
  have hskipped : ∀ part : List TxCallback, (∀ item ∈ part, item.needSubmitLog = true) →
      unsummed list.checksumScn part = [] :=
    fun part hpart => unsummed_eq_nil (fun item hitem => .inl (hpart item hitem))
  refine ⟨?_, ?_, ?_, ?_, ?_, ?_, ?_, ?_, hchecksum.trans h.checksum,
    by rw [hsyncScn]; exact h.syncScn⟩
  · rw [hcallbacks]
    intro item hitem
    rcases mem_append.mp hitem with hin | hin
    · rcases mem_append.mp hin with hin | hin
      · exact h.numbered item (hfrontMem item hin)
      · exact hrunNumbered item hin
    · exact h.numbered item (hbackMem item hin)
  · have hsorted := h.sorted
    rw [hsplit, pairwise_append, pairwise_append] at hsorted
    obtain ⟨⟨hfrontSorted, -⟩, hbackSorted, hacross⟩ := hsorted
    rw [hcallbacks, pairwise_append, pairwise_append]
    refine ⟨⟨hfrontSorted, hrunSorted, ?_⟩, hbackSorted, ?_⟩
    · intro left hleft right hright
      rw [(hrun right hright).2]
      exact hnew.later left (h.linked left (hfrontMem left hleft) (hfront left hleft))
    intro left hleft right hright
    rw [(h.numbered right (hbackMem right hright)).waiting (hback right hright)]
    rcases mem_append.mp hleft with hin | hin
    · exact (h.numbered left (hfrontMem left hin)).scn_le_max
    · exact (hrunNumbered left hin).scn_le_max
  · rw [hcallbacks]
    intro item hitem hdone
    rcases mem_append.mp hitem with hin | hin
    · rcases mem_append.mp hin with hin | hin
      · exact mem_append_left _ (h.linked item (hfrontMem item hin) hdone)
      · exact mem_append_right _ hin
    · rw [hback item hin] at hdone
      exact Bool.noConfusion hdone
  · intro item hitem
    rcases mem_append.mp hitem with hin | hin
    · exact h.logged_done item hin
    · exact ⟨(hrun item hin).1, hrunNumbered item hin⟩
  · rw [pairwise_append]
    refine ⟨h.logged_sorted, hrunSorted, ?_⟩
    intro left hleft right hright
    rw [(hrun right hright).2]
    exact hnew.later left hleft
  · have hpending := h.pending
    rw [hsplit, unsummed_append, unsummed_append, hskipped old hold, hskipped back hback,
      append_nil, append_nil] at hpending
    rw [hchecksumScn, hcallbacks, unsummed_append, unsummed_append, unsummed_append,
      hskipped back hback, hpending, append_nil]
  · have hsummed : summed list.checksumScn (logged ++ run) = summed list.checksumScn logged := by
      rw [summed, filter_append]
      exact (congrArg _ hrunSummed).trans (append_nil _)
    rw [hsum, hchecksumScn, hsummed]
    exact h.sum
  · rw [hchecksumScn]
    exact h.behind.imp id (Exists.imp fun _ => And.imp_left (mem_append_left _))

theorem Summed.logSubmitted {waiting front run back : List TxCallback} {scope : CallbackScope}
    (h : Summed list logged) (hordered : Ordered list done waiting) (hnodup : list.addrs.Nodup)
    (hfilled : Filled list scope front run back) (hnew : Journal.NewLog ⟨list, logged⟩ scn) :
    Summed (list.logSubmitted scope scn)
      (logged ++ run.map (logSubmittedCb · scn)) := by
  obtain ⟨rfl, rfl⟩ := hordered.filled_eq hnodup hfilled
  rw [hfilled.logSubmitted_eq hnodup scn]
  refine h.newLog hnew hfilled.split hordered.logged_done hfilled.need
    (fun item hitem => hordered.waiting_need item (mem_append_right _ hitem)) ?_ rfl rfl
    rfl rfl rfl
  intro item hitem
  obtain ⟨original, horiginal, rfl⟩ := mem_map.mp hitem
  refine ⟨need_logSubmittedCb original scn, ?_⟩
  have hmax := hordered.waiting_scn original (mem_append_left _ horiginal)
  simp only [logSubmittedCb, hfilled.need original horiginal, if_true, setScn, hmax]

theorem Summed.all_logged
    (h : Summed list logged) (hnodup : list.addrs.Nodup) (hmode : mode.forReplay = true)
    (hbatch : Appendable list batch mode) (hpos : list.appendPos mode = list.getTail) :
    ∀ item ∈ list.callbacks, item.needSubmitLog = false := by
  intro item hitem
  rcases eq_nil_or_concat' list.callbacks with hnil | ⟨init, last, hlast⟩
  · rw [hnil] at hitem
    exact absurd hitem not_mem_nil
  have hmem : last ∈ list.callbacks := by
    rw [hlast]
    exact mem_append_right _ mem_cons_self
  have htail : list.getTail = some last.addr := by
    simp [getTail, getPrev, PointerList.prev, before, hlast]
  obtain ⟨scn, hvalid, hscn, horder⟩ := hbatch.inOrder hmode
  rw [outOfOrder, hmode, hpos, htail, find_eq_some hmem hnodup, Option.any_some,
    Bool.true_and, scnLt_of_valid hvalid (h.numbered last hmem).scn_valid,
    decide_eq_false_iff_not] at horder
  have hbound : scn < 2 ^ 62 := by simpa [scnIsValid] using hvalid
  have hle : item.scn ≤ last.scn := by
    have hsorted := h.sorted
    rw [hlast, pairwise_append] at hsorted
    rw [hlast] at hitem
    rcases mem_append.mp hitem with hin | hin
    · exact hsorted.2.2 item hin last mem_cons_self
    · rw [mem_singleton.mp hin]
  rw [← Bool.not_eq_true]
  intro hwait
  have hmax := (h.numbered item hitem).waiting hwait
  unfold obMaxScnTsNs at hmax hscn
  omega

theorem Summed.link_replay (h : Summed list logged) (hnodup : list.addrs.Nodup)
    (hmode : mode.forReplay = true) (hbatch : Appendable list batch mode)
    (hpos : list.appendPos mode = list.getTail) (hnew : Journal.NewLog ⟨list, logged⟩ scn)
    (hscn : ∀ item ∈ batch, item.scn = scn) (length dataSize : Int) (cursor : Option Nat) :
    Summed (list.link batch length dataSize cursor mode) (logged ++ batch) := by
  have hcallbacks : (list.link batch length dataSize cursor mode).callbacks =
      list.callbacks ++ batch ++ [] := by
    simp only [link, hpos, getTail, getPrev, append_nil]
    exact insertBehind_last hnodup batch
  have hsplit : list.callbacks = list.callbacks ++ [] ++ [] := by simp
  refine h.newLog hnew hsplit (h.all_logged hnodup hmode hbatch hpos) (by simp) (by simp) ?_
    hcallbacks rfl rfl rfl rfl
  intro item hitem
  refine ⟨?_, hscn item hitem⟩
  rw [hbatch.need item hitem, hmode]
  rfl

/-! Releasing callbacks. -/

theorem finish_success {lastScn : σ → Nat} {done : Traversal σ}
    (h : (finish mgr lastScn done).1 = .success) :
    done.ret = .success ∧
      (finish mgr lastScn done).2 = done.list.ensureChecksum mgr (lastScn done.state) := by
  unfold finish at h ⊢
  split_ifs at h with hret
  · exact ⟨hret, by rw [if_pos hret]⟩
  · exact absurd h hret

/-- An operation that sums up the callbacks in front of `stop`. -/
theorem Summed.finish {functor : Functor σ} {lastScn : σ → Nat} {ok : σ → Prop} {state : σ}
    {todo tail : List TxCallback} {stop : Option Nat} {done : Traversal σ} (h : Summed list logged)
    (hnodup : list.addrs.Nodup) (hsums : Sums functor list.checksumScn lastScn ok) (hok : ok state)
    (hstart : lastScn state = obMinScnTsNs) (hrange : between addr list.callbacks none stop = todo)
    (hsplit : list.callbacks = todo ++ tail) (htail : ∀ item ∈ tail, item.needSubmitLog = true)
    (hskip : mgr.skipChecksumCalc = false)
    (hdone : ∃ branchRemoved, done =
      { list.callback mgr functor state none stop with
        list := { (list.callback mgr functor state none stop).list with
          branchRemoved := branchRemoved } })
    (hret : (TxCallbackList.finish mgr lastScn done).1 = .success) :
    Summed (TxCallbackList.finish mgr lastScn done).2 logged := by
  obtain ⟨hsuccess, heq⟩ := finish_success hret
  obtain ⟨branchRemoved, rfl⟩ := hdone
  have hcallback : list.callback mgr functor state none stop =
      { traverse mgr functor todo ⟨.success, state, 0, list⟩ with
        list :=
          { (traverse mgr functor todo ⟨.success, state, 0, list⟩).list with
            length := (traverse mgr functor todo ⟨.success, state, 0, list⟩).list.length -
              (traverse mgr functor todo ⟨.success, state, 0, list⟩).removeCnt } } := by
    simp only [callback, hsums.forward, Bool.false_eq_true, if_false, hrange]
  rw [heq]
  rw [hcallback] at hsuccess ⊢
  exact h.release hnodup hsums hok hstart hsplit htail hskip hsuccess ⟨_, _, rfl⟩

theorem between_all (nodes : List TxCallback) :
    between addr nodes none none = nodes := by
  simp [between, PointerList.after]

theorem countBranch_eq (toSeq : TxSeq) (done : Traversal σ) :
    ∃ branchRemoved, countBranch toSeq done =
      { done with list := { done.list with branchRemoved := branchRemoved } } := by
  unfold countBranch
  split <;> exact ⟨_, rfl⟩

theorem checksumer_eq (list : TxCallbackList) (hskip : mgr.skipChecksumCalc = false) :
    list.checksumer mgr = some list.checksumScn ∧ list.checksumLastScn mgr = id := by
  have hchecksumer : list.checksumer mgr = some list.checksumScn := by simp [checksumer, hskip]
  refine ⟨hchecksumer, ?_⟩
  funext scn
  simp [checksumLastScn, hchecksumer]

variable {waiting : List TxCallback}

section

variable (h : Summed list logged) (hnodup : list.addrs.Nodup)
  (hskip : mgr.skipChecksumCalc = false)

include h hnodup hskip

theorem Summed.fastCommit {stopScn : Nat}
    {checkpoint : TxCallback → ObRet} (hordered : Ordered list done waiting)
    (hret : (list.removeCallbacksForFastCommit mgr stopScn checkpoint).1 = .success) :
    Summed (list.removeCallbacksForFastCommit mgr stopScn checkpoint).2 logged := by
  have hchecksumer := (checksumer_eq list hskip).1
  have hrange : between addr list.callbacks none list.logCursor = done := by
    have hdistinct : ((done ++ waiting).map addr).Nodup := by
      rw [← hordered.split]
      exact hnodup
    rw [hordered.cursor, hordered.split]
    exact takeWhile_to_head hdistinct
  unfold removeCallbacksForFastCommit at hret ⊢
  rw [hchecksumer] at hret ⊢
  exact h.finish hnodup (sums_fastCommit _ h.checksumScn_valid checkpoint) (.inl rfl) rfl hrange
    hordered.split hordered.waiting_need hskip ⟨_, rfl⟩ hret

theorem Summed.removeMemtable {memtableSet : List Nat} {stopScn : Nat}
    {checkpoint : TxCallback → ObRet}
    (hret : (list.removeCallbacksForRemoveMemtable mgr memtableSet stopScn
      checkpoint).1 = .success) :
    Summed (list.removeCallbacksForRemoveMemtable mgr memtableSet stopScn checkpoint).2
      logged := by
  obtain ⟨hchecksumer, hlast⟩ := checksumer_eq list hskip
  unfold removeCallbacksForRemoveMemtable at hret ⊢
  rw [hchecksumer, hlast] at hret ⊢
  exact h.finish hnodup (sums_removeSync stopScn h.checksumScn_valid _ checkpoint) (.inl rfl)
    rfl (between_all _) (append_nil _).symm (by simp) hskip ⟨_, rfl⟩ hret

theorem Summed.rollbackTo {toSeq fromSeq : TxSeq} {replayScn : Nat} {rollback : TxCallback → ObRet}
    (hret : (list.removeCallbacksForRollbackTo mgr toSeq fromSeq replayScn rollback).1 = .success) :
    Summed (list.removeCallbacksForRollbackTo mgr toSeq fromSeq replayScn rollback).2
      logged := by
  obtain ⟨hchecksumer, hlast⟩ := checksumer_eq list hskip
  unfold removeCallbacksForRollbackTo at hret ⊢
  rw [hchecksumer, hlast] at hret ⊢
  exact h.finish hnodup (sums_remove (if scnIsValid replayScn then replayScn else obMaxScnTsNs)
    h.checksumScn_valid (rollbackCond toSeq fromSeq) rollback) (.inl rfl) rfl
    (between_all _) (append_nil _).symm (by simp) hskip (countBranch_eq toSeq _) hret

theorem Summed.calcBefore (hret : (list.txCalcChecksumBeforeScn mgr scn).1 = .success) :
    Summed (list.txCalcChecksumBeforeScn mgr scn).2 logged := by
  have hbound : (if scn = obMaxScnTsNs then list.syncScn else scn) ≠ obMaxScnTsNs := by
    split
    · exact h.syncScn
    · assumption
  exact h.finish hnodup (sums_calcChecksum hbound h.checksumScn_valid) (.inl rfl) rfl
    (between_all _) (append_nil _).symm (by simp) hskip ⟨_, rfl⟩ hret

end

namespace Journal

/-- Callbacks that are linked get their log at once in replay, and later
otherwise. -/
theorem summed_link (h : Summed journal.list journal.logged) (hnodup : journal.list.addrs.Nodup)
    (hbatch : Appendable journal.list batch mode)
    (hreplay : mode.forReplay = true → (∃ scn, journal.NewLog scn ∧
      ∀ item ∈ batch, item.scn = scn) ∧ journal.list.appendPos mode = journal.list.getTail)
    (length dataSize : Int) (cursor : Option Nat) :
    Summed (journal.list.link batch length dataSize cursor mode)
      (journal.logged ++ if mode.forReplay = true then batch else []) := by
  split_ifs with hmode
  · obtain ⟨⟨scn, hnew, hscn⟩, hpos⟩ := hreplay hmode
    exact h.link_replay hnodup hmode hbatch hpos hnew hscn length dataSize cursor
  · rw [append_nil]
    exact h.link_leader hnodup (by simpa using hmode) hbatch length dataSize cursor

theorem step_summed {next : Journal} {event : Event}
    (haccounted : Accounted journal.list 0) (hordered : Ordered journal.list done waiting)
    (h : Summed journal.list journal.logged) (hstep : Step journal event next) :
    Summed next.list next.logged := by
  obtain ⟨hpermitted, hscheduled, rfl⟩ := hstep
  have hnodup := haccounted.nodup
  have hsame : ∀ list, Summed list journal.logged → Summed list (journal.logged ++ []) :=
    fun list hlist => by rw [append_nil]; exact hlist
  cases event with
  | append callback mode outcome =>
    obtain ⟨hfresh, hcarries⟩ := hpermitted
    rcases appendCallback_cases journal.list callback mode outcome with
      ⟨hfail, heq⟩ | ⟨hvalid, horder, heq⟩
    · have hnone : loggedBy journal.list (.append callback mode outcome) = [] :=
        if_neg (fun hboth => hfail hboth.2)
      simp only [call, heq, hnone]
      exact hsame _ h
    have hbatch : Appendable journal.list ([callback].map (prepared mode)) mode :=
      .of_prepared (nodup_singleton _)
        (fun item hitem => by rw [mem_singleton.mp hitem]; exact ⟨hfresh, hcarries⟩)
        hvalid horder
    have hlink := summed_link h hnodup hbatch (fun hmode =>
      ⟨⟨callback.scn, (hscheduled hmode).1, by simp [prepared]⟩, (hscheduled hmode).2⟩)
      1 callback.dataSize (some callback.addr)
    simpa only [call, heq, loggedBy, and_true, map_cons, map_nil] using hlink
  | appendBatch batch length mode outcome =>
    obtain ⟨hdistinct, hfresh, rfl⟩ := hpermitted
    rcases appendCallbacks_cases journal.list batch batch.length mode outcome with
      ⟨hfail, heq⟩ | ⟨head, rest, rfl, hvalid, horder, dataSize, heq⟩
    · have hnone : loggedBy journal.list (.appendBatch batch batch.length mode outcome) = [] :=
        if_neg (fun hboth => hfail hboth.2)
      simp only [call, heq, hnone]
      exact hsame _ h
    have hbatch : Appendable journal.list ((head :: rest).map (prepared mode)) mode :=
      .of_prepared hdistinct hfresh hvalid horder
    have hlink := summed_link h hnodup hbatch (fun hmode => by
      obtain ⟨⟨scn, hnew, hscn⟩, hpos⟩ := hscheduled hmode
      refine ⟨⟨scn, hnew, fun item hitem => ?_⟩, hpos⟩
      obtain ⟨original, horiginal, rfl⟩ := mem_map.mp hitem
      exact hscn original horiginal)
      (head :: rest).length dataSize (some head.addr)
    simpa only [call, heq, loggedBy, and_true] using hlink
  | submitLog scope =>
    obtain ⟨fillRedo, hscope⟩ := hpermitted
    obtain ⟨front, run, back, hfilled⟩ := filled_of_fillLog haccounted hscope
    have hrun := hfilled.scopeCallbacks_eq hnodup
    simp only [call, loggedBy, hrun]
    exact h.logSubmitted hordered hnodup hfilled hscheduled
  | syncLogSucc =>
    apply hsame
    exact { h with syncScn := hscheduled }
  | fastCommit =>
    exact hsame _ (h.fastCommit hnodup hscheduled.1 hordered hscheduled.2)
  | removeMemtable =>
    exact hsame _ (h.removeMemtable hnodup hscheduled.1 hscheduled.2)
  | rollbackTo =>
    exact hsame _ (h.rollbackTo hnodup hscheduled.1 hscheduled.2)
  | syncLogFail | cleanUnlog | replayFail | calcChecksumAll => exact hscheduled.elim
  | replaySucc =>
    apply hsame
    refine { h with syncScn := ?_ }
    simp only [call, replaySucc, scnIncUpdate]
    split
    · exact hscheduled
    · exact h.syncScn
  | calcChecksumBefore => exact hsame _ (h.calcBefore hnodup hscheduled.1 hscheduled.2)

theorem run_invariant {events : List Event} (hrun : Execution Step empty events journal) :
    Accounted journal.list 0 ∧ (∃ done waiting, Ordered journal.list done waiting) ∧
      Summed journal.list journal.logged := by
  refine hrun.invariant (P := fun journal => Accounted journal.list 0 ∧
    (∃ done waiting, Ordered journal.list done waiting) ∧
    Summed journal.list journal.logged) ?_ ?_
  · refine ⟨accounted_empty, ⟨[], [], ⟨rfl, by simp, by simp, by simp, rfl⟩⟩, ?_⟩
    exact ⟨by simp [empty, TxCallbackList.empty], by simp [empty, TxCallbackList.empty],
      by simp [empty, TxCallbackList.empty], by simp [empty], by simp [empty], rfl, rfl, .inl rfl,
      rfl, by decide⟩
  rintro event journal next ⟨haccounted, ⟨done, waiting, hordered⟩, hsummed⟩ hstep
  have hnext := step_summed haccounted hordered hsummed hstep
  obtain ⟨hpermitted, -, rfl⟩ := hstep
  have heffect := call_effect hpermitted
  exact ⟨haccounted.effect heffect, hordered.effect haccounted heffect, hnext⟩

end Journal

/-! The checksum of the transaction. -/

/-- What `tx_calc_checksum_all` adds for a callback; it does not ask whether the
callback has a log. -/
def remaining (checksumScn : Nat) (callback : TxCallback) : List UInt8 :=
  if callback.scn < checksumScn then [] else bytes callback

theorem value_sumFrom_all {checksumScn : Nat} {iter : TxCallback}
    (hchecksumScn : scnIsValid checksumScn = true) (hiter : Numbered iter) (sum : BatchChecksum) :
    (sumFrom (some checksumScn) iter sum).value =
      obCrc64 sum.value (remaining checksumScn iter) := by
  have hle := scnLe_of_valid hchecksumScn hiter.scn_valid
  by_cases hlow : iter.scn < checksumScn
  · have hnone : scnLe checksumScn iter.scn = false := by
      rw [hle]
      exact decide_eq_false (Nat.not_le_of_lt hlow)
    rw [remaining, if_pos hlow]
    simp only [sumFrom, hnone]
    rfl
  have hsome : scnLe checksumScn iter.scn = true := by
    rw [hle]
    exact decide_eq_true (Nat.le_of_not_lt hlow)
  rw [remaining, if_neg hlow, bytes]
  simp only [sumFrom, calcChecksum, hsome, if_true]
  cases iter.checksumData with
  | none => rfl
  | some data => exact BatchChecksum.value_fill sum data

/-- The loop of `tx_calc_checksum_all` visits everything and removes nothing. -/
theorem traverse_calcAll (mgr : CallbackMgr) {checksumScn : Nat}
    (hchecksumScn : scnIsValid checksumScn = true) (todo : List TxCallback) (done : Traversal Nat)
    (hret : done.ret = .success) (hnumbered : ∀ iter ∈ todo, Numbered iter) :
    ∃ state sum, sum.value = obCrc64 done.list.batchChecksum.value
        (todo.flatMap (remaining checksumScn)) ∧
      traverse mgr (calcChecksumFunctor obMaxScnTsNs checksumScn) todo done =
        { done with
          state := state
          list := { done.list with batchChecksum := sum } } := by
  induction todo generalizing done with
  | nil => exact ⟨done.state, done.list.batchChecksum, rfl, rfl⟩
  | cons iter rest ih =>
    have hiter := hnumbered iter mem_cons_self
    have hgo : scnLt obMaxScnTsNs iter.scn = false := by
      rw [scnLt_of_valid (by decide) hiter.scn_valid]
      exact decide_eq_false (Nat.not_lt_of_le hiter.scn_le_max)
    have hvisit : (calcChecksumFunctor obMaxScnTsNs checksumScn).visit done.state
        done.list.batchChecksum iter =
        ⟨.success, iter.scn, sumFrom (some checksumScn) iter done.list.batchChecksum, false⟩ := by
      simp only [calcChecksumFunctor, hgo]
      rfl
    obtain ⟨state, sum, hsum, heq⟩ := ih
      (visitedBy (calcChecksumFunctor obMaxScnTsNs checksumScn) done iter)
      (by simp only [visitedBy, hvisit])
      (fun item hitem => hnumbered item (mem_cons_of_mem iter hitem))
    refine ⟨state, sum, ?_, ?_⟩
    · rw [hsum, flatMap_cons, obCrc64_append, ← value_sumFrom_all hchecksumScn hiter]
      simp only [visitedBy, hvisit]
    have hnext : (calcChecksumFunctor obMaxScnTsNs checksumScn).isIterEnd done.state iter =
        false := hgo
    rw [traverse_cons, if_neg hiter.scn_pos, hnext, hvisit, heq]
    simp only [visitedBy, hvisit, hret]
    rfl

theorem Summed.checksumScn_le_max (h : Summed list logged) : list.checksumScn ≤ obMaxScnTsNs := by
  rcases h.behind with hmin | ⟨item, hitem, heq⟩
  · rw [hmin]
    exact Nat.zero_le _
  · obtain ⟨hneed, hnumbered⟩ := h.logged_done item hitem
    rw [heq]
    exact (hnumbered.logged hneed).2

/-- What is left for `tx_calc_checksum_all`: the logged callbacks that were not
summed up, and those that wait. -/
theorem Summed.remaining (h : Summed list logged)
    (hordered : Ordered list done waiting) :
    list.callbacks.flatMap (remaining list.checksumScn) =
      (unsummed list.checksumScn logged ++ waiting).flatMap bytes := by
  have hdone : done.flatMap (TxCallbackList.remaining list.checksumScn) =
      done.flatMap (fresh list.checksumScn) := by
    apply flatMap_congr
    intro item hitem
    simp [TxCallbackList.remaining, fresh, Skipped, hordered.logged_done item hitem]
  have hwaiting : waiting.flatMap (TxCallbackList.remaining list.checksumScn) =
      waiting.flatMap bytes := by
    apply flatMap_congr
    intro item hitem
    apply if_neg
    rw [hordered.waiting_scn item hitem]
    exact Nat.not_lt_of_le h.checksumScn_le_max
  have hskipped : unsummed list.checksumScn waiting = [] :=
    unsummed_eq_nil (fun item hitem => .inl (hordered.waiting_need item hitem))
  rw [← h.pending, hordered.split, unsummed_append, hskipped, append_nil,
    flatMap_append, flatMap_append, hdone, hwaiting, flatMap_fresh]

theorem Ordered.filter_need (h : Ordered list done waiting) :
    list.callbacks.filter needSubmitLog = waiting := by
  have hdone : done.filter needSubmitLog = [] :=
    filter_eq_nil_iff.mpr (fun item hitem => by simp [h.logged_done item hitem])
  rw [h.split, filter_append, hdone, nil_append]
  exact filter_eq_self.mpr h.waiting_need

theorem ensureChecksum_max (hskip : mgr.skipChecksumCalc = false)
    (hlow : scnLt obMaxScnTsNs list.checksumScn = false) :
    (list.ensureChecksum mgr obMaxScnTsNs).checksum = nonzero list.batchChecksum.value := by
  have hvalid : scnIsValid obMaxScnTsNs = true := by decide
  have hmin : obMaxScnTsNs ≠ obMinScnTsNs := by decide
  rw [← BatchChecksum.calcSum_fst]
  simp [ensureChecksum, hskip, hlow, hvalid, hmin]

theorem Summed.txCalcChecksumAll (h : Summed list logged)
    (hordered : Ordered list done waiting) (hskip : mgr.skipChecksumCalc = false) :
    (list.txCalcChecksumAll mgr).1 = .success ∧ (list.txCalcChecksumAll mgr).2.checksum =
        nonzero (obCrc64 0 ((logged ++ waiting).flatMap bytes)) := by
  obtain ⟨state, sum, hsum, htraverse⟩ := traverse_calcAll mgr
    h.checksumScn_valid list.callbacks ⟨.success, obMinScnTsNs, 0, list⟩ rfl h.numbered
  have hlow : scnLt obMaxScnTsNs list.checksumScn = false := by
    rw [scnLt_of_valid (by decide) h.checksumScn_valid]
    exact decide_eq_false (Nat.not_lt_of_le h.checksumScn_le_max)
  have hvalue : sum.value = obCrc64 0 ((logged ++ waiting).flatMap bytes) := by
    rw [hsum, h.remaining hordered, h.sum, ← obCrc64_append, ← flatMap_append,
      ← append_assoc, summed_append_unsummed h.logged_sorted
        (fun item hitem => (h.logged_done item hitem).1)]
  have hforward : (calcChecksumFunctor obMaxScnTsNs list.checksumScn).isReverse = false := rfl
  unfold TxCallbackList.txCalcChecksumAll
  rw [if_neg (fun hboth => hboth.2 h.checksum)]
  simp only [callback, hforward, Bool.false_eq_true, if_false, between_all, htraverse,
    TxCallbackList.finish, if_true, true_and]
  rw [← hvalue]
  exact ensureChecksum_max hskip hlow

/-- The checksum of a transaction is the one of its logged callbacks, in the order
of their logs and each counted once, followed by those that still wait for one.
When callbacks were released is of no importance. -/
theorem checksum_schedule_independent {events events' : List Event} {journal journal' : Journal}
    (hrun : Execution Journal.Step .empty events journal)
    (hrun' : Execution Journal.Step .empty events' journal')
    (hlogged : journal.logged = journal'.logged)
    (hwaiting : journal.list.callbacks.filter needSubmitLog =
      journal'.list.callbacks.filter needSubmitLog) {mgr mgr' : CallbackMgr}
    (hskip : mgr.skipChecksumCalc = false) (hskip' : mgr'.skipChecksumCalc = false) :
    (journal.list.txCalcChecksumAll mgr).1 = .success ∧
      (journal.list.txCalcChecksumAll mgr).2.checksum =
        (journal'.list.txCalcChecksumAll mgr').2.checksum ∧
      (journal.list.txCalcChecksumAll mgr).2.checksum = nonzero (obCrc64 0 ((journal.logged ++
          journal.list.callbacks.filter needSubmitLog).flatMap bytes)) := by
  obtain ⟨-, ⟨done, waiting, hordered⟩, hsummed⟩ := Journal.run_invariant hrun
  obtain ⟨-, ⟨done', waiting', hordered'⟩, hsummed'⟩ := Journal.run_invariant hrun'
  obtain ⟨hret, hsum⟩ := hsummed.txCalcChecksumAll hordered hskip
  obtain ⟨-, hsum'⟩ := hsummed'.txCalcChecksumAll hordered' hskip'
  rw [hordered.filter_need, hordered'.filter_need] at hwaiting
  refine ⟨hret, ?_, ?_⟩
  · rw [hsum, hsum', hlogged, hwaiting]
  · rw [hsum, hordered.filter_need]

/-- Two callbacks are replayed with their log and released by a fast commit in one schedule, and
stay linked in the other. -/
theorem checksum_schedule_independent_two :
    let mgr : CallbackMgr := ⟨false, false, 0⟩
    let replay : AppendMode := ⟨true, false, false⟩
    let batch : List TxCallback :=
      [⟨1, false, 5, .reset, 7, 10, some [1, 2]⟩, ⟨2, false, 5, .reset, 8, 20, some [3]⟩]
    let append := Event.appendBatch batch 2 replay fun _ => .success
    let kept := ((TxCallbackList.empty.call append).2.call (.replaySucc 5)).2
    let released := (kept.call (.fastCommit mgr obInvalidScnVal fun _ => .success)).2
    kept.callbacks.length = 2 ∧ released.callbacks = [] ∧ (kept.txCalcChecksumAll mgr).2.checksum =
        (released.txCalcChecksumAll mgr).2.checksum := by
  intro mgr replay batch append kept released
  have hfresh : ∀ item ∈ batch, item.addr ∉ TxCallbackList.empty.addrs ∧ CarriesScn replay item := by
    unfold CarriesScn
    decide
  have hkept : Execution Journal.Step .empty [append, .replaySucc 5]
      ⟨kept, batch.map (prepared replay)⟩ :=
    (Execution.refl.snoc ⟨⟨by decide, hfresh, rfl⟩,
      fun _ => ⟨⟨5, ⟨by decide, by decide, by decide, by decide⟩, by decide⟩, rfl⟩, rfl⟩).snoc
      ⟨trivial, Nat.ne_of_lt (by decide), rfl⟩
  have hrelease : Journal.Step ⟨kept, batch.map (prepared replay)⟩
      (.fastCommit mgr obInvalidScnVal fun _ => .success)
      ⟨released, batch.map (prepared replay)⟩ := ⟨trivial, ⟨rfl, by decide +kernel⟩, rfl⟩
  have hskip : mgr.skipChecksumCalc = false := rfl
  obtain ⟨-, hsame, -⟩ := checksum_schedule_independent hkept (hkept.snoc hrelease) rfl
    (by decide +kernel) hskip hskip
  refine ⟨by decide +kernel, by decide +kernel, ?_⟩
  clear hrelease hkept
  clear_value released kept
  exact hsame

/-- A callback that still waits for its log is counted too, and one whose release
fails is counted again by the next operation. -/
theorem checksum_beyond_logged :
    let mgr : CallbackMgr := ⟨false, false, 0⟩
    let callback : TxCallback := ⟨1, true, obMaxScnTsNs, .reset, 7, 10, some [1, 2]⟩
    let waiting := (TxCallbackList.empty.call (.append callback ⟨false, false, false⟩ .success)).2
    let kept := ((waiting.call (.submitLog ⟨1, 1, 1, 10⟩ 5)).2.call (.syncLogSucc 5 1)).2
    let failed := (kept.call (.fastCommit mgr obInvalidScnVal fun _ => .errUnexpected)).2
    Execution Journal.Step .empty [.append callback ⟨false, false, false⟩ .success]
        ⟨waiting, []⟩ ∧
      (waiting.txCalcChecksumAll mgr).2.checksum ≠ nonzero (obCrc64 0 ([].flatMap bytes)) ∧
      failed.callbacks = kept.callbacks ∧
      (failed.txCalcChecksumAll mgr).2.checksum ≠ (kept.txCalcChecksumAll mgr).2.checksum := by
  intro mgr callback waiting kept failed
  refine ⟨?_, by decide +kernel, by decide +kernel, by decide +kernel⟩
  exact Execution.refl.snoc
    ⟨⟨by decide, fun _ => rfl, fun _ => rfl⟩, fun h => absurd h (by decide), rfl⟩

end SeekDB.TxCallbackList
