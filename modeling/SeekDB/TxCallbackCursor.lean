/-
The log cursor of the callback list of a transaction: the callbacks that still
have to be logged are the last ones of the list, and the cursor is the first of
them.  With it, what holds in every state that the calls on a list can reach.
-/
import SeekDB.TxCallbackAccount

namespace SeekDB.TxCallbackList

open TxCallback List Option PointerList

variable {σ : Type} {list : TxCallbackList}

/-- The callbacks that still have to be logged are the last ones, and the log
cursor is the first of them. -/
structure Ordered (list : TxCallbackList) (logged waiting : List TxCallback) : Prop where
  split : list.callbacks = logged ++ waiting
  logged_done : ∀ item ∈ logged, item.needSubmitLog = false
  waiting_need : ∀ item ∈ waiting, item.needSubmitLog = true
  waiting_scn : ∀ item ∈ waiting, item.scn = obMaxScnTsNs
  cursor : list.logCursor = waiting.head?.map addr

variable {logged waiting : List TxCallback}

theorem Ordered.cursor_eq (h : Ordered list logged waiting) :
    list.logCursor = (list.callbacks.find? needSubmitLog).map addr := by
  have hlogged : logged.find? needSubmitLog = none := by
    apply List.find?_eq_none.mpr
    intro item hitem
    rw [h.logged_done item hitem]
    decide
  rw [h.cursor, h.split, List.find?_append, hlogged, none_or]
  cases waiting with
  | nil => rfl
  | cons first =>
    rw [List.find?_cons_of_pos (h.waiting_need first mem_cons_self)]
    rfl

/-- A removal keeps the order; on the way back only logged callbacks may be
removed. -/
theorem Ordered.removeCallback {iter : TxCallback}
    {isReverse : Bool} (h : Ordered list logged waiting) (hnodup : list.addrs.Nodup)
    (hiter : iter ∈ list.callbacks) (hback : isReverse = true → iter.needSubmitLog = false) :
    ∃ logged' waiting', Ordered (list.removeCallback isReverse iter) logged' waiting' := by
  have hsides : ∀ front back, list.callbacks = front ++ iter :: back →
      iter.addr ∉ front.map addr ∧ iter.addr ∉ back.map addr := by
    intro front back hsplit
    apply notMem_of_middle
    rw [← hsplit]
    exact hnodup
  rw [h.split] at hiter
  rcases mem_append.mp hiter with hin | hin
  · obtain ⟨front, back, rfl⟩ := append_of_mem hin
    have hsplit : list.callbacks = front ++ iter :: (back ++ waiting) := by
      rw [h.split]
      simp
    obtain ⟨hfront, hrest⟩ := hsides _ _ hsplit
    refine ⟨front ++ back, waiting, ?_, ?_, h.waiting_need, h.waiting_scn, ?_⟩
    · rw [append_assoc, ← remove_split hfront hrest, ← hsplit]
      rfl
    · intro item hitem
      apply h.logged_done
      rcases mem_append.mp hitem with hmem | hmem
      · exact mem_append_left _ hmem
      · exact mem_append_right _ (mem_cons_of_mem _ hmem)
    have hne : list.logCursor ≠ some iter.addr := by
      rw [h.cursor]
      intro hcursor
      obtain ⟨item, hitem, haddr⟩ := map_eq_some_iff.mp hcursor
      apply hrest
      rw [← haddr, map_append]
      exact mem_append_right _ (List.mem_map_of_mem (mem_of_head? hitem))
    simp only [TxCallbackList.removeCallback, if_neg hne]
    exact h.cursor
  · obtain ⟨front, back, rfl⟩ := append_of_mem hin
    have hforward : isReverse = false := by
      rw [← Bool.not_eq_true]
      intro hrev
      have hneed := h.waiting_need iter hin
      rw [hback hrev] at hneed
      exact Bool.noConfusion hneed
    have hsplit : list.callbacks = (logged ++ front) ++ iter :: back := by
      rw [h.split, append_assoc]
    obtain ⟨hfront, hrest⟩ := hsides _ _ hsplit
    have hsub : ∀ item ∈ front ++ back, item ∈ front ++ iter :: back := by
      intro item hitem
      rcases mem_append.mp hitem with hmem | hmem
      · exact mem_append_left _ hmem
      · exact mem_append_right _ (mem_cons_of_mem _ hmem)
    refine ⟨logged, front ++ back, ?_, h.logged_done,
      fun item hitem => h.waiting_need item (hsub item hitem),
      fun item hitem => h.waiting_scn item (hsub item hitem), ?_⟩
    · rw [← append_assoc, ← remove_split hfront hrest, ← hsplit]
      rfl
    have hnext : list.getNext (some iter.addr) = back.head?.map addr := by
      rw [getNext, hsplit]
      exact next_split hfront
    have hcursor := h.cursor
    simp only [TxCallbackList.removeCallback, hforward]
    cases front with
    | nil =>
      have heq : list.logCursor = some iter.addr := hcursor
      rw [if_pos heq]
      exact hnext
    | cons =>
      have hne : list.logCursor ≠ some iter.addr := by
        rw [hcursor]
        intro heq
        apply hfront
        rw [← Option.some.inj heq]
        exact List.mem_map_of_mem (mem_append_right _ mem_cons_self)
      rw [if_neg hne]
      exact hcursor

theorem Ordered.callback (h : Ordered list logged waiting)
    (haccounted : Accounted list 0) (mgr : CallbackMgr) (functor : Functor σ)
    (hback : functor.isReverse = true → ∀ iter, functor.Removes iter → iter.needSubmitLog = false)
    (state : σ) (start stop : Option Nat) :
    ∃ logged' waiting',
      Ordered (list.callback mgr functor state start stop).list logged' waiting' := by
  obtain ⟨final, ⟨-, logged', waiting', hfinal⟩, heq⟩ := callback_rule mgr functor
    (P := fun list cnt => Accounted list cnt ∧ ∃ logged waiting, Ordered list logged waiting)
    (fun _ _ sum ⟨hcount, logged, waiting, hord⟩ =>
      ⟨hcount.sum sum, logged, waiting, ⟨hord.1, hord.2, hord.3, hord.4, hord.5⟩⟩)
    (fun _ _ iter hiter hremoves ⟨hcount, _, _, hord⟩ =>
      ⟨hcount.removeCallback _ hiter, hord.removeCallback hcount.nodup hiter
        (fun hreverse => hback hreverse iter hremoves)⟩)
    haccounted.nodup ⟨haccounted, logged, waiting, h⟩ state start stop
  rw [heq]
  exact ⟨logged', waiting', ⟨hfinal.1, hfinal.2, hfinal.3, hfinal.4, hfinal.5⟩⟩

theorem find_eq_some {pos : TxCallback} (hpos : pos ∈ list.callbacks) (hnodup : list.addrs.Nodup) :
    list.find (some pos.addr) = some pos := by
  obtain ⟨front, back, hsplit, hfront, -⟩ := exists_split hpos hnodup
  have hnone : front.find? (fun callback => some callback.addr == some pos.addr) = none := by
    apply List.find?_eq_none.mpr
    intro item hitem heq
    apply hfront
    rw [← Option.some.inj (eq_of_beq heq)]
    exact List.mem_map_of_mem hitem
  rw [find, hsplit, List.find?_append, hnone, none_or]
  exact List.find?_cons_of_pos (beq_self_eq_true _)

/-- A replayed callback is linked behind the sentinel or behind a callback that
is logged: one that waits has the largest number, and the check on the order
refuses it. -/
theorem Ordered.appendPos_logged {mode : AppendMode} {scn : Nat}
    (h : Ordered list logged waiting) (hnodup : list.addrs.Nodup) (hreplay : mode.forReplay = true)
    (hvalid : scnIsValid scn = true) (hscn : scn ≠ obMaxScnTsNs)
    (horder : list.outOfOrder mode scn = false) (q : Nat) (hq : list.appendPos mode = some q) :
    q ∈ logged.map addr := by
  have hlinked : q ∈ list.addrs := by
    unfold appendPos at hq
    split at hq <;> exact prev_mem hq
  obtain ⟨pos, hpos, rfl⟩ := List.mem_map.mp hlinked
  rw [h.split] at hpos
  rcases mem_append.mp hpos with hin | hin
  · exact List.mem_map_of_mem hin
  exfalso
  have hfind := find_eq_some (h.split ▸ hpos) hnodup
  have hmax := h.waiting_scn pos hin
  have hlt : scnLt scn pos.scn = true := by
    have hbound : scn < 2 ^ 62 := by simpa [scnIsValid] using hvalid
    rw [hmax, scnLt_of_valid hvalid (by decide), decide_eq_true_eq]
    unfold obMaxScnTsNs at hscn ⊢
    omega
  rw [outOfOrder, hq, hfind, hreplay, any_some, hlt] at horder
  exact Bool.noConfusion horder

theorem Ordered.link {logged waiting batch : List TxCallback} {mode : AppendMode} {first : Nat}
    (h : Ordered list logged waiting) (hnodup : list.addrs.Nodup)
    (hbatch : Appendable list batch mode)
    (hfirst : batch.head?.map addr = some first) (length dataSize : Int) :
    ∃ logged' waiting',
      Ordered (list.link batch length dataSize (some first) mode) logged' waiting' := by
  cases hmode : mode.forReplay with
  | false =>
    have hpos : list.appendPos mode = list.getTail := by
      simp [appendPos, hmode]
    refine ⟨logged, waiting ++ batch, ?_, h.logged_done, ?_, ?_, ?_⟩
    · simp only [TxCallbackList.link, hpos, getTail, getPrev]
      rw [insertBehind_last hnodup, h.split, append_assoc]
    · intro item hitem
      rcases mem_append.mp hitem with hin | hin
      · exact h.waiting_need item hin
      · rw [hbatch.need item hin, hmode]
        rfl
    · intro item hitem
      rcases mem_append.mp hitem with hin | hin
      · exact h.waiting_scn item hin
      · exact hbatch.unlogged hmode item hin
    have hcursor := h.cursor
    cases waiting with
    | nil =>
      have hnone : list.logCursor = none := hcursor
      simp only [TxCallbackList.link, hmode, hnone]
      exact hfirst.symm
    | cons item =>
      have hsome : list.logCursor = some item.addr := hcursor
      simp only [TxCallbackList.link, hsome]
      simp
  | true =>
    obtain ⟨scn, hvalid, hscn, horder⟩ := hbatch.inOrder hmode
    have hdistinct : ((logged ++ waiting).map addr).Nodup := by
      rw [← h.split]
      exact hnodup
    obtain ⟨left, right, rfl, hinsert⟩ := insertBehind_front hdistinct
      (h.appendPos_logged hnodup hmode hvalid hscn horder) batch
    refine ⟨left ++ batch ++ right, waiting, ?_, ?_, h.waiting_need, h.waiting_scn, ?_⟩
    · simp only [TxCallbackList.link, h.split]
      exact hinsert
    · intro item hitem
      rw [append_assoc] at hitem
      rcases mem_append.mp hitem with hin | hin
      · exact h.logged_done item (mem_append_left _ hin)
      rcases mem_append.mp hin with hin | hin
      · rw [hbatch.need item hin, hmode]
        rfl
      · exact h.logged_done item (mem_append_right _ hin)
    · simp only [TxCallbackList.link, hmode]
      exact h.cursor

/-- A log is filled with the beginning of what waits: both start at the cursor. -/
theorem Ordered.filled_eq {logged waiting front run back : List TxCallback}
    {scope : CallbackScope} (h : Ordered list logged waiting) (hnodup : list.addrs.Nodup)
    (hfilled : Filled list scope front run back) : logged = front ∧ waiting = run ++ back := by
  obtain ⟨first, -, hfirst, -⟩ := scopeOf_eq_some hfilled.scope
  obtain ⟨rest, rfl⟩ := List.head?_eq_some_iff.mp hfirst
  have hcursor := h.cursor.symm.trans hfilled.cursor
  obtain ⟨item, hitem, haddr⟩ := map_eq_some_iff.mp hcursor
  obtain ⟨others, rfl⟩ := List.head?_eq_some_iff.mp hitem
  have heq := h.split.symm.trans hfilled.split
  rw [append_assoc] at heq
  apply split_unique _ heq haddr.symm
  rw [← h.split]
  exact hnodup

theorem Ordered.logSubmitted {logged waiting front run back : List TxCallback}
    {scope : CallbackScope} (h : Ordered list logged waiting) (hnodup : list.addrs.Nodup)
    (hfilled : Filled list scope front run back) (scn : Nat) :
    ∃ logged' waiting', Ordered (list.logSubmitted scope scn) logged' waiting' := by
  obtain ⟨rfl, rfl⟩ := h.filled_eq hnodup hfilled
  rw [hfilled.logSubmitted_eq hnodup scn]
  refine ⟨logged ++ run.map (logSubmittedCb · scn), back, rfl, ?_,
    fun item hitem => h.waiting_need item (mem_append_right _ hitem),
    fun item hitem => h.waiting_scn item (mem_append_right _ hitem), rfl⟩
  intro item hitem
  rcases mem_append.mp hitem with hin | hin
  · exact h.logged_done item hin
  · obtain ⟨original, -, rfl⟩ := List.mem_map.mp hin
    exact need_logSubmittedCb original scn

theorem SameAccount.ordered {other : TxCallbackList}
    (hsame : SameAccount list other) (h : Ordered other logged waiting) :
    Ordered list logged waiting :=
  ⟨hsame.callbacks.trans h.split, h.logged_done, h.waiting_need, h.waiting_scn,
    hsame.logCursor.trans h.cursor⟩

theorem removeSync_logged {isReverse : Bool} {checksumer : Option Nat}
    {condForRemove condForStop : TxCallback → Bool} {release : TxCallback → ObRet}
    {iter : TxCallback}
    (h : (removeSyncFunctor isReverse checksumer condForRemove condForStop release).Removes iter) :
    iter.needSubmitLog = false := by
  obtain ⟨state, sum, hend, -⟩ := h
  simp only [removeSyncFunctor, Bool.or_eq_false_iff] at hend
  exact hend.1.1

theorem Ordered.effect {next : TxCallbackList}
    (h : Ordered list logged waiting) (haccounted : Accounted list 0) (heffect : Effect list next) :
    ∃ logged' waiting', Ordered next logged' waiting' := by
  cases heffect with
  | same hsame => exact ⟨logged, waiting, hsame.ordered h⟩
  | visited mgr functor state start stop hforward hsame =>
    obtain ⟨logged', waiting', hdone⟩ := h.callback haccounted mgr functor
      (fun hreverse => by rw [hforward] at hreverse; exact Bool.noConfusion hreverse)
      state start stop
    exact ⟨logged', waiting', hsame.ordered hdone⟩
  | linked hbatch hfirst => exact h.link haccounted.nodup hbatch hfirst _ _
  | submitted hscope =>
    obtain ⟨front, run, back, hfilled⟩ := filled_of_fillLog haccounted hscope
    exact h.logSubmitted haccounted.nodup hfilled _
  | replayFailed =>
    obtain ⟨logged', waiting', hdone⟩ := h.callback haccounted _ _
      (fun _ _ hremoves => removeSync_logged hremoves) _ _ _
    exact ⟨logged', waiting', ⟨hdone.1, hdone.2, hdone.3, hdone.4, hdone.5⟩⟩

theorem run_invariant {events : List Event} (hrun : Execution Step empty events list) :
    Accounted list 0 ∧ ∃ logged waiting, Ordered list logged waiting := by
  refine hrun.invariant (P := fun list => Accounted list 0 ∧
    ∃ logged waiting, Ordered list logged waiting) ?_ ?_
  · exact ⟨accounted_empty, [], [], ⟨rfl, by simp, by simp, by simp, rfl⟩⟩
  · rintro event state next ⟨haccounted, logged, waiting, hordered⟩ ⟨hpermitted, rfl⟩
    have heffect := call_effect hpermitted
    exact ⟨haccounted.effect heffect, hordered.effect haccounted heffect⟩

/-- After any calls on a list, however each of them ended, the length is the
number of linked callbacks, length and removals make up what was appended, the
log cursor is the first callback that still has to be logged, and what was
appended is logged, was removed before it was logged, or still waits; and a
chain that cannot be appended leaves the list as it was. -/
theorem callback_list_accounting {events : List Event} (hrun : Execution Step empty events list) :
    list.length = list.callbacks.length ∧ list.length + list.removed = list.appended ∧
      list.logCursor = (list.callbacks.find? needSubmitLog).map addr ∧
      list.appended = list.logged + list.unlogRemoved +
        list.callbacks.countP needSubmitLog ∧
      ∀ batch length mode beforeAppend,
        (list.appendCallbacks batch length mode beforeAppend).1 ≠ .success →
        (list.appendCallbacks batch length mode beforeAppend).2 = list := by
  obtain ⟨haccounted, logged, waiting, hordered⟩ := run_invariant hrun
  have hlength := haccounted.length_eq
  have htotal := haccounted.appended_eq
  refine ⟨by omega, by omega, hordered.cursor_eq, haccounted.logged_eq, ?_⟩
  intro batch length mode beforeAppend hfail
  rcases appendCallbacks_cases list batch length mode beforeAppend with
    ⟨-, heq⟩ | ⟨_, _, _, _, _, _, heq⟩
  · exact heq
  · rw [heq] at hfail
    exact absurd rfl hfail

/-- One callback is appended, its log submitted, and a second one appended. -/
theorem callback_list_accounting_two :
    let leader : AppendMode := ⟨false, false, false⟩
    let first : TxCallback := ⟨1, true, obMaxScnTsNs, .reset, 7, 10, none⟩
    let second : TxCallback := ⟨2, true, obMaxScnTsNs, .reset, 7, 10, none⟩
    let list := ((((empty.call (.append first leader .success)).2.call
      (.submitLog ⟨1, 1, 1, 10⟩ 5)).2).call (.append second leader .success)).2
    list.logCursor = some 2 ∧ list.length = list.callbacks.length ∧ list.appended = 2 := by
  intro leader first second list
  have hrun : Execution Step empty [.append first leader .success,
      .submitLog ⟨1, 1, 1, 10⟩ 5, .append second leader .success] list :=
    ((Execution.refl.snoc ⟨⟨by decide, fun _ => rfl, fun _ => rfl⟩, rfl⟩).snoc
      ⟨⟨fun _ => .success, by decide⟩, rfl⟩).snoc
      ⟨⟨by decide, fun _ => rfl, fun _ => rfl⟩, rfl⟩
  obtain ⟨hlength, -, hcursor, -⟩ := callback_list_accounting hrun
  exact ⟨hcursor.trans (by decide), hlength, by decide⟩

end SeekDB.TxCallbackList
