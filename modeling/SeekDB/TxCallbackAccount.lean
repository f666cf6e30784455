/-
Accounting of the callback list of a transaction: what each call can do to the
linked callbacks, the pointers and the counters, and that the counters agree
with what is linked afterwards.

While a loop removes callbacks, `length_` lags behind by the number removed so
far; it is corrected when the loop ends, however it ends.
-/
import SeekDB.TxCallbackOps

namespace SeekDB.TxCallbackList

open TxCallback List PointerList

variable {run front back : List TxCallback} {scope : CallbackScope} {σ : Type}
  {list : TxCallbackList}

/-! The loop. -/

/-- The functor may ask for the removal of the callback. -/
def Functor.Removes (functor : Functor σ) (iter : TxCallback) : Prop :=
  ∃ state sum, functor.isIterEnd state iter = false ∧
    (functor.visit state sum iter).needRemoveCallback = true

section

variable (mgr : CallbackMgr) (functor : Functor σ) {P : TxCallbackList → Int → Prop}

/-- A property of the list and the number of removals that visits and removals
keep holds when the loop ends. -/
theorem traverse_rule (hsum : ∀ list cnt sum, P list cnt → P { list with batchChecksum := sum } cnt)
    (hremove : ∀ list cnt iter, iter ∈ list.callbacks → functor.Removes iter →
      P list cnt → P (list.removeCallback functor.isReverse iter) (cnt + 1))
    (todo : List TxCallback) (done : Traversal σ) (hnodup : (todo.map addr).Nodup)
    (hlinked : ∀ iter ∈ todo, iter ∈ done.list.callbacks) (hP : P done.list done.removeCnt) :
    P (traverse mgr functor todo done).list (traverse mgr functor todo done).removeCnt := by
  induction todo generalizing done with
  | nil => exact hP
  | cons iter rest ih =>
    rw [map_cons, nodup_cons] at hnodup
    have hiter := hlinked iter mem_cons_self
    have hrest : ∀ item ∈ rest, item ∈ done.list.callbacks :=
      fun item hitem => hlinked item (mem_cons_of_mem iter hitem)
    unfold traverse
    by_cases hmin : iter.scn = obMinScnTsNs
    · rw [if_pos hmin]
      exact hP
    split_ifs with hend
    · exact hP
    have hvisit := hsum done.list done.removeCnt
      (functor.visit done.state done.list.batchChecksum iter).checksum hP
    dsimp only
    split_ifs with hret hkeep hearly
    · exact hvisit
    · exact ih _ hnodup.2 hrest hvisit
    · exact hvisit
    apply ih _ hnodup.2
    · intro item hitem
      apply mem_filter.mpr
      refine ⟨hrest item hitem, ?_⟩
      have hne : item.addr ≠ iter.addr := by
        intro heq
        apply hnodup.1
        rw [← heq]
        exact mem_map_of_mem hitem
      simp [hne]
    · exact hremove _ _ iter hiter
        ⟨done.state, done.list.batchChecksum, by simpa using hend, by simpa using hkeep⟩
        hvisit

/-- The same for `callback_`, which at last corrects the length. -/
theorem callback_rule (hsum : ∀ list cnt sum, P list cnt → P { list with batchChecksum := sum } cnt)
    (hremove : ∀ list cnt iter, iter ∈ list.callbacks → functor.Removes iter →
      P list cnt → P (list.removeCallback functor.isReverse iter) (cnt + 1))
    (hnodup : list.addrs.Nodup) (hP : P list 0) (state : σ) (start stop : Option Nat) :
    ∃ final, P final (list.callback mgr functor state start stop).removeCnt ∧
      (list.callback mgr functor state start stop).list =
        { final with
          length := final.length - (list.callback mgr functor state start stop).removeCnt } := by
  refine ⟨_, traverse_rule mgr functor hsum hremove _ ⟨.success, state, 0, list⟩ ?_ ?_ hP, rfl⟩
  · split
    · have hsub : (betweenBack addr list.callbacks start stop).Sublist
          list.callbacks.reverse := betweenBack_sublist _ _ _
      apply (hsub.map addr).nodup
      rw [map_reverse]
      exact nodup_reverse.mpr hnodup
    · exact ((between_sublist list.callbacks start stop).map addr).nodup hnodup
  · intro iter hiter
    split at hiter
    · exact mem_reverse.mp ((betweenBack_sublist list.callbacks start stop).subset hiter)
    · exact (between_sublist list.callbacks start stop).subset hiter

end

/-! The counters. -/

/-- The number of linked callbacks that still have to be logged. -/
def waiting (list : TxCallbackList) : Nat := list.callbacks.countP TxCallback.needSubmitLog

/-- The counters agree with the linked callbacks, `pending` removals not being
taken off the length yet. -/
structure Accounted (list : TxCallbackList) (pending : Int) : Prop where
  nodup : list.addrs.Nodup
  cursor_linked : ∀ p, list.logCursor = some p → p ∈ list.addrs
  start_linked : ∀ p, list.parallelStartPos = some p → p ∈ list.addrs
  length_eq : list.length = list.callbacks.length + pending
  appended_eq : list.callbacks.length + list.removed = list.appended
  logged_eq : list.appended = list.logged + list.unlogRemoved + list.waiting

theorem accounted_empty : Accounted empty 0 := by
  constructor <;> simp [empty, addrs, waiting]

theorem Accounted.sum {cnt : Int} (h : Accounted list cnt) (sum : BatchChecksum) :
    Accounted { list with batchChecksum := sum } cnt :=
  { h with }

theorem moved_linked {iter : TxCallback} {pointer next : Option Nat}
    (hpointer : ∀ p, pointer = some p → p ∈ list.addrs)
    (hnext : ∀ p, next = some p → p ∈ (remove addr list.callbacks iter.addr).map addr) (p : Nat)
    (hp : (if pointer = some iter.addr then next else pointer) = some p) :
    p ∈ (remove addr list.callbacks iter.addr).map addr := by
  split at hp
  · exact hnext p hp
  rename_i hne
  obtain ⟨item, hitem, rfl⟩ := mem_map.mp (hpointer p hp)
  have hother : item.addr ≠ iter.addr := fun heq => hne (by rw [hp, heq])
  exact mem_map_of_mem (mem_filter.mpr ⟨hitem, by simp [hother]⟩)

theorem Accounted.removeCallback {cnt : Int} {iter : TxCallback} (h : Accounted list cnt)
    (isReverse : Bool) (hiter : iter ∈ list.callbacks) :
    Accounted (list.removeCallback isReverse iter) (cnt + 1) := by
  have hnext : ∀ p, (if isReverse then list.getPrev (some iter.addr)
      else list.getNext (some iter.addr)) = some p →
      p ∈ (remove addr list.callbacks iter.addr).map addr := by
    intro p hp
    split at hp
    · exact prev_mem_remove hiter h.nodup hp
    · exact next_mem_remove hiter h.nodup hp
  have hstart : ∀ p, (if isReverse then none
      else if isReverse then list.getPrev (some iter.addr)
        else list.getNext (some iter.addr)) = some p →
      p ∈ (remove addr list.callbacks iter.addr).map addr := by
    intro p hp
    cases isReverse with
    | true => simp at hp
    | false => exact hnext p hp
  obtain ⟨front, back, hsplit, hfront, hback⟩ := exists_split hiter h.nodup
  have hremove : remove addr list.callbacks iter.addr = front ++ back := by
    rw [hsplit]
    exact remove_split hfront hback
  have hlength : list.callbacks.length = (front ++ back).length + 1 := by
    rw [hsplit, length_append, length_append, length_cons]
    omega
  have hwaiting : list.waiting = (front ++ back).countP TxCallback.needSubmitLog +
      (if iter.needSubmitLog then 1 else 0) := by
    simp only [waiting, hsplit, countP_append, countP_cons]
    omega
  refine ⟨?_, moved_linked h.cursor_linked hnext, moved_linked h.start_linked hstart, ?_, ?_, ?_⟩
  · exact (filter_sublist.map addr).nodup h.nodup
  · have hlag := h.length_eq
    simp only [TxCallbackList.removeCallback, hremove]
    omega
  · have htotal := h.appended_eq
    simp only [TxCallbackList.removeCallback, hremove]
    omega
  have hlogged := h.logged_eq
  rw [hwaiting] at hlogged
  simp only [TxCallbackList.removeCallback, waiting, hremove]
  by_cases hneed : iter.needSubmitLog = true
  · rw [if_pos hneed] at hlogged ⊢
    omega
  · rw [if_neg hneed] at hlogged ⊢
    omega

/-- A loop over callbacks leaves the counters in agreement with what is linked,
whether it comes to its end or is stopped by an error. -/
theorem Accounted.callback (h : Accounted list 0) (mgr : CallbackMgr)
    (functor : Functor σ) (state : σ) (start stop : Option Nat) :
    Accounted (list.callback mgr functor state start stop).list 0 := by
  obtain ⟨final, hfinal, heq⟩ := callback_rule mgr functor
    (P := Accounted) (fun _ _ sum hP => hP.sum sum)
    (fun _ _ _ hiter _ hP => hP.removeCallback _ hiter) h.nodup h state start stop
  rw [heq]
  refine { hfinal with length_eq := ?_ }
  have hlag := hfinal.length_eq
  dsimp only
  omega

/-! Appending. -/

theorem beforeAppendCb_eq {callback prepared : TxCallback} {isReplay : Bool} {outcome : ObRet}
    (h : callback.beforeAppendCb isReplay outcome = (.success, prepared)) :
    prepared = { callback with needSubmitLog := !isReplay } ∧
      (isReplay = true → scnIsValid callback.scn = true) := by
  unfold beforeAppendCb at h
  split_ifs at h with hscn hfail
  · simp at h
  · rw [Prod.mk.injEq] at h
    exact absurd h.1 hfail
  · rw [Prod.mk.injEq] at h
    exact ⟨h.2.symm, by simpa using hscn⟩

theorem prepareAll_eq {isReplay : Bool} {outcome : TxCallback → ObRet}
    {batch prepared : List TxCallback}
    (h : prepareAll isReplay outcome batch = (.success, prepared)) :
    prepared = batch.map (fun item => { item with needSubmitLog := !isReplay }) ∧
      ∀ item ∈ batch, isReplay = true → scnIsValid item.scn = true := by
  induction batch generalizing prepared with
  | nil =>
    rw [prepareAll, Prod.mk.injEq] at h
    exact ⟨h.2.symm, by simp⟩
  | cons item rest ih =>
    rw [prepareAll] at h
    split at h
    · rename_i first hfirst
      cases hrest : prepareAll isReplay outcome rest with
      | mk =>
        rw [hrest] at h
        obtain ⟨rfl, rfl⟩ := h
        obtain ⟨rfl, hvalid⟩ := beforeAppendCb_eq hfirst
        obtain ⟨rfl, hvalids⟩ := ih hrest
        exact ⟨rfl, forall_mem_cons.mpr ⟨hvalid, hvalids⟩⟩
    · rename_i ret first hfail heq
      rw [Prod.mk.injEq] at h
      exact (hfail h.1).elim

/-- A callback as it is linked. -/
def prepared (mode : AppendMode) (callback : TxCallback) : TxCallback :=
  { callback with needSubmitLog := !mode.forReplay }

/-- What may be linked in one call. -/
structure Appendable (list : TxCallbackList) (batch : List TxCallback) (mode : AppendMode) :
    Prop where
  nodup : (batch.map addr).Nodup
  fresh : ∀ item ∈ batch, item.addr ∉ list.addrs
  need : ∀ item ∈ batch, item.needSubmitLog = !mode.forReplay
  unlogged : mode.forReplay = false → ∀ item ∈ batch, item.scn = obMaxScnTsNs
  inOrder : mode.forReplay = true → ∃ scn, scnIsValid scn = true ∧ scn ≠ obMaxScnTsNs ∧
    list.outOfOrder mode scn = false

theorem Appendable.of_prepared {head : TxCallback} {rest : List TxCallback} {mode : AppendMode}
    (hnodup : ((head :: rest).map addr).Nodup)
    (hfresh : ∀ item ∈ head :: rest, item.addr ∉ list.addrs ∧ CarriesScn mode item)
    (hvalid : mode.forReplay = true → scnIsValid head.scn = true)
    (horder : list.outOfOrder mode head.scn = false) :
    Appendable list ((head :: rest).map (prepared mode)) mode := by
  have haddrs : ((head :: rest).map (prepared mode)).map addr =
      (head :: rest).map addr := by
    rw [map_map]
    rfl
  refine ⟨by rw [haddrs]; exact hnodup, ?_, ?_, ?_, ?_⟩
  · intro item hitem
    obtain ⟨original, horiginal, rfl⟩ := mem_map.mp hitem
    exact (hfresh original horiginal).1
  · intro item hitem
    obtain ⟨original, -, rfl⟩ := mem_map.mp hitem
    rfl
  · intro hleader item hitem
    obtain ⟨original, horiginal, rfl⟩ := mem_map.mp hitem
    exact (hfresh original horiginal).2.mpr hleader
  intro hreplay
  refine ⟨head.scn, hvalid hreplay, ?_, horder⟩
  intro hmax
  have hleader := (hfresh head mem_cons_self).2.mp hmax
  rw [hreplay] at hleader
  exact Bool.noConfusion hleader

theorem appendCallback_cases (list : TxCallbackList) (callback : TxCallback)
    (mode : AppendMode) (outcome : ObRet) :
    ((list.appendCallback callback mode outcome).1 ≠ .success ∧
      (list.appendCallback callback mode outcome).2 = list) ∨
    ((mode.forReplay = true → scnIsValid callback.scn = true) ∧
      list.outOfOrder mode callback.scn = false ∧
      list.appendCallback callback mode outcome =
        (.success, list.link [prepared mode callback] 1 callback.dataSize
          (some callback.addr) mode)) := by
  unfold appendCallback
  split
  · rename_i item hitem
    obtain ⟨rfl, hvalid⟩ := beforeAppendCb_eq hitem
    split
    · exact .inl ⟨by simp, rfl⟩
    · rename_i horder
      exact .inr ⟨hvalid, by simpa using horder, rfl⟩
  · rename_i ret item hfail _
    exact .inl ⟨hfail, rfl⟩

theorem appendCallbacks_cases (list : TxCallbackList) (batch : List TxCallback)
    (length : Int) (mode : AppendMode) (outcome : TxCallback → ObRet) :
    ((list.appendCallbacks batch length mode outcome).1 ≠ .success ∧
      (list.appendCallbacks batch length mode outcome).2 = list) ∨
    ∃ head rest, batch = head :: rest ∧ (mode.forReplay = true → scnIsValid head.scn = true) ∧
      list.outOfOrder mode head.scn = false ∧ ∃ dataSize,
        list.appendCallbacks batch length mode outcome =
          (.success, list.link (batch.map (prepared mode)) length dataSize
            (some head.addr) mode) := by
  cases batch with
  | nil => exact .inl ⟨by simp [appendCallbacks], rfl⟩
  | cons head rest =>
    unfold appendCallbacks
    dsimp only
    split
    · rename_i all hall
      obtain ⟨rfl, hvalid⟩ := prepareAll_eq hall
      split
      · exact .inl ⟨by simp, rfl⟩
      · rename_i horder
        exact .inr ⟨head, rest, rfl, hvalid head mem_cons_self, by simpa using horder,
          _, rfl⟩
    · rename_i ret all hfail _
      exact .inl ⟨hfail, rfl⟩

theorem link_perm (list : TxCallbackList) (batch : List TxCallback) (length dataSize : Int)
    (cursor : Option Nat) (mode : AppendMode) :
    (list.link batch length dataSize cursor mode).callbacks.Perm (list.callbacks ++ batch) :=
  insertBehind_perm _ _ _

theorem Accounted.link {batch : List TxCallback} {mode : AppendMode} {first : Nat}
    (h : Accounted list 0) (hbatch : Appendable list batch mode)
    (hfirst : batch.head?.map addr = some first) (dataSize : Int) :
    Accounted (list.link batch batch.length dataSize (some first) mode) 0 := by
  have hperm := link_perm list batch batch.length dataSize (some first) mode
  have haddrs := hperm.map addr
  rw [map_append] at haddrs
  have hold : ∀ p ∈ list.addrs,
      p ∈ (list.link batch batch.length dataSize (some first) mode).addrs :=
    fun p hp => haddrs.mem_iff.mpr (mem_append_left _ hp)
  have hlength := hperm.length_eq
  have hcount := hperm.countP_eq TxCallback.needSubmitLog
  rw [length_append] at hlength
  rw [countP_append] at hcount
  refine ⟨?_, ?_, ?_, ?_, ?_, ?_⟩
  · refine haddrs.nodup_iff.mpr (nodup_append.mpr ⟨h.nodup, hbatch.nodup, ?_⟩)
    rintro p hp q hq rfl
    obtain ⟨item, hitem, rfl⟩ := mem_map.mp hq
    exact hbatch.fresh item hitem hp
  · intro p hp
    simp only [TxCallbackList.link] at hp
    split at hp
    · obtain ⟨item, hitem, haddr⟩ := Option.map_eq_some_iff.mp (hfirst.trans hp)
      rw [← haddr]
      exact haddrs.mem_iff.mpr (mem_append_right _ (mem_map_of_mem (mem_of_head? hitem)))
    · exact hold p (h.cursor_linked p hp)
  · intro p hp
    simp only [TxCallbackList.link] at hp
    split at hp
    · obtain ⟨item, hitem, rfl⟩ := Option.map_eq_some_iff.mp hp
      exact mem_map_of_mem (mem_of_getLast? hitem)
    · exact hold p (h.start_linked p hp)
  · have hlag := h.length_eq
    show list.length + batch.length = _
    omega
  · have htotal := h.appended_eq
    show _ + list.removed = list.appended + batch.length
    omega
  · have hlogged := h.logged_eq
    show list.appended + batch.length =
      list.logged + (if mode.forReplay then (batch.length : Int) else 0) + list.unlogRemoved + _
    cases hmode : mode.forReplay with
    | true =>
      have hzero : batch.countP TxCallback.needSubmitLog = 0 := by
        apply countP_eq_zero.mpr
        intro item hitem
        rw [hbatch.need item hitem, hmode]
        decide
      simp only [waiting, if_true] at hlogged ⊢
      omega
    | false =>
      have hall : batch.countP TxCallback.needSubmitLog = batch.length := by
        apply countP_eq_length.mpr
        intro item hitem
        rw [hbatch.need item hitem, hmode]
        rfl
      simp only [waiting] at hlogged ⊢
      simp
      omega

/-! Logging. -/

/-- A log is filled with a run of callbacks from the log cursor on. -/
structure Filled (list : TxCallbackList) (scope : CallbackScope)
    (front run back : List TxCallback) : Prop where
  split : list.callbacks = front ++ run ++ back
  need : ∀ item ∈ run, item.needSubmitLog = true
  cursor : list.logCursor = run.head?.map addr
  scope : scopeOf run = some scope

theorem filled_of_fillLog {fillRedo : TxCallback → ObRet}
    (h : Accounted list 0) (hscope : scopeOf (list.fillLog fillRedo) = some scope) :
    ∃ front run back, Filled list scope front run back := by
  cases hcursor : list.logCursor with
  | none => simp [fillLog, hcursor, scopeOf] at hscope
  | some cursor =>
    obtain ⟨first, hfirst, rfl⟩ := mem_map.mp (h.cursor_linked cursor hcursor)
    obtain ⟨front, back, hsplit, -⟩ := exists_split hfirst h.nodup
    have hnodup : ((front ++ first :: back).map addr).Nodup := hsplit ▸ h.nodup
    have hrun : list.fillLog fillRedo = (first :: back).takeWhile
        (fun iter => iter.needSubmitLog && decide (fillRedo iter = .success)) := by
      have hafter := after_prev hnodup
      rw [← hsplit] at hafter
      simp only [fillLog, hcursor, getPrev, hafter]
    have hneed : ∀ item ∈ list.fillLog fillRedo, item.needSubmitLog = true := by
      intro item hitem
      rw [hrun] at hitem
      have hboth := mem_takeWhile_imp hitem
      rw [Bool.and_eq_true] at hboth
      exact hboth.1
    refine ⟨front, list.fillLog fillRedo, (first :: back).dropWhile
      (fun iter => iter.needSubmitLog && decide (fillRedo iter = .success)),
      ?_, hneed, ?_, hscope⟩
    · rw [hrun, append_assoc, takeWhile_append_dropWhile]
      exact hsplit
    rw [hrun] at hscope ⊢
    rw [takeWhile_cons] at hscope ⊢
    split
    · exact hcursor
    · rename_i hstop
      simp [hstop, scopeOf] at hscope

theorem scopeOf_eq_some (h : scopeOf run = some scope) :
    ∃ first last, run.head? = some first ∧ run.getLast? = some last ∧
      scope = ⟨first.addr, last.addr, run.length, (run.map TxCallback.dataSize).sum⟩ := by
  unfold scopeOf at h
  split at h
  · rename_i first last hfirst hlast
    exact ⟨first, last, hfirst, hlast, (Option.some.inj h).symm⟩
  · simp at h

theorem addr_logSubmittedCb (callback : TxCallback) (scn : Nat) :
    (callback.logSubmittedCb scn).addr = callback.addr := by
  unfold logSubmittedCb setScn
  split_ifs <;> rfl

theorem need_logSubmittedCb (callback : TxCallback) (scn : Nat) :
    (callback.logSubmittedCb scn).needSubmitLog = false := by
  unfold logSubmittedCb
  split
  · rfl
  · rename_i hneed
    simpa using hneed

theorem map_marked (scn : Nat) (hnodup : ((front ++ run ++ back).map addr).Nodup) :
    (front ++ run ++ back).map (fun callback =>
        if callback.addr ∈ run.map addr then callback.logSubmittedCb scn
        else callback) =
      front ++ run.map (logSubmittedCb · scn) ++ back := by
  rw [map_append, map_append, nodup_append, nodup_append] at hnodup
  obtain ⟨⟨-, -, hfront⟩, -, hback⟩ := hnodup
  have hkeep : ∀ part : List TxCallback,
      (∀ item ∈ part, item.addr ∉ run.map addr) →
      part.map (fun callback =>
        if callback.addr ∈ run.map addr then callback.logSubmittedCb scn
        else callback) = part := by
    intro part hpart
    conv_rhs => rw [← map_id part]
    exact map_congr_left (fun item hitem => if_neg (hpart item hitem))
  rw [map_append, map_append, hkeep front, hkeep back]
  · congr 2
    exact map_congr_left (fun item hitem => if_pos (mem_map_of_mem hitem))
  · intro item hitem hrun
    exact hback _ (mem_append_right _ hrun) _ (mem_map_of_mem hitem) rfl
  · intro item hitem hrun
    exact hfront _ (mem_map_of_mem hitem) _ hrun rfl

theorem map_addr_logSubmittedCb (run : List TxCallback) (scn : Nat) :
    (run.map (logSubmittedCb · scn)).map addr = run.map addr := by
  rw [map_map]
  exact map_congr_left (fun item _ => addr_logSubmittedCb item scn)

theorem Filled.scopeCallbacks_eq
    (hfilled : Filled list scope front run back) (hnodup : list.addrs.Nodup) :
    list.scopeCallbacks scope = run := by
  obtain ⟨first, last, hfirst, hlast, rfl⟩ := scopeOf_eq_some hfilled.scope
  have hdistinct : ((front ++ run ++ back).map addr).Nodup := hfilled.split ▸ hnodup
  simp only [scopeCallbacks, getPrev, getNext, hfilled.split]
  exact between_segment hdistinct hfirst hlast

/-- Submitting a log marks the run it was filled with and moves the cursor
behind it. -/
theorem Filled.logSubmitted_eq
    (hfilled : Filled list scope front run back) (hnodup : list.addrs.Nodup) (scn : Nat) :
    list.logSubmitted scope scn =
      { list with
        callbacks := front ++ run.map (logSubmittedCb · scn) ++ back
        logCursor := back.head?.map addr
        logged := list.logged + run.length
        loggedDataSize := list.loggedDataSize + scope.dataSize } := by
  have hscope := hfilled.scopeCallbacks_eq hnodup
  obtain ⟨first, last, hfirst, hlast, rfl⟩ := scopeOf_eq_some hfilled.scope
  have hsplit := hfilled.split
  have hdistinct : ((front ++ run ++ back).map addr).Nodup := hsplit ▸ hnodup
  have hmarked : ((front ++ run.map (logSubmittedCb · scn) ++ back).map
      addr).Nodup := by
    simpa only [map_append, map_addr_logSubmittedCb] using hdistinct
  obtain ⟨init, rfl⟩ := List.getLast?_eq_some_iff.mp hlast
  have hnext : next addr
      (front ++ (init ++ [last]).map (logSubmittedCb · scn) ++ back)
      (some last.addr) = back.head?.map addr := by
    have hassoc : front ++ (init ++ [last]).map (logSubmittedCb · scn) ++ back =
        (front ++ init.map (logSubmittedCb · scn)) ++
          last.logSubmittedCb scn :: back := by simp
    rw [hassoc] at hmarked ⊢
    rw [← addr_logSubmittedCb last scn]
    exact next_split (notMem_of_nodup hmarked)
  simp only [logSubmitted, submitLogSucc, hscope, getNext, hsplit, map_marked scn hdistinct, hnext]

theorem Accounted.logSubmitted
    (h : Accounted list 0) (hfilled : Filled list scope front run back) (scn : Nat) :
    Accounted (list.logSubmitted scope scn) 0 := by
  have haddrs : (front ++ run.map (logSubmittedCb · scn) ++ back).map
      addr = list.addrs := by
    rw [addrs, hfilled.split]
    simp only [map_append, map_addr_logSubmittedCb]
  have hlength : (front ++ run.map (logSubmittedCb · scn) ++ back).length =
      list.callbacks.length := by
    rw [hfilled.split]
    simp only [length_append, length_map]
  have hmarked : (run.map (logSubmittedCb · scn)).countP
      TxCallback.needSubmitLog = 0 := by
    apply countP_eq_zero.mpr
    intro item hitem
    obtain ⟨original, -, rfl⟩ := mem_map.mp hitem
    rw [need_logSubmittedCb]
    decide
  have hrun := countP_eq_length.mpr hfilled.need
  rw [hfilled.logSubmitted_eq h.nodup scn]
  refine ⟨?_, ?_, ?_, ?_, ?_, ?_⟩
  · rw [addrs, haddrs]
    exact h.nodup
  · intro p hp
    obtain ⟨item, hitem, rfl⟩ := Option.map_eq_some_iff.mp hp
    exact mem_map_of_mem (mem_append_right _ (mem_of_head? hitem))
  · rw [addrs, haddrs]
    exact h.start_linked
  · dsimp only
    rw [hlength]
    exact h.length_eq
  · dsimp only
    rw [hlength]
    exact h.appended_eq
  · have hlogged := h.logged_eq
    simp only [waiting, hfilled.split, countP_append, hrun] at hlogged
    simp only [waiting, countP_append, hmarked]
    omega

/-- `replay_fail` takes a removed callback out of all counters. -/
theorem Accounted.replayFail (h : Accounted list 0) (mgr : CallbackMgr) (scn : Nat)
    (serialReplay : Bool) (rollback : TxCallback → ObRet) :
    Accounted (list.replayFail mgr scn serialReplay rollback) 0 := by
  have hdone := h.callback mgr
    (removeSyncFunctor true none (fun iter => decide (scn = iter.scn))
      (fun iter => decide (scn ≠ iter.scn)) rollback)
    obMinScnTsNs (if serialReplay then list.parallelStartPos else none)
    (if serialReplay then none
      else if list.parallelStartPos.isSome then list.getPrev list.parallelStartPos else none)
  have htotal := hdone.appended_eq
  have hlogged := hdone.logged_eq
  refine { hdone with appended_eq := ?_, logged_eq := ?_ }
  · simp only [TxCallbackList.replayFail]
    omega
  · simp only [TxCallbackList.replayFail, waiting] at hlogged ⊢
    omega

/-! What a call can do. -/

/-- Two lists with the same callbacks, pointers and counters. -/
structure SameAccount (list other : TxCallbackList) : Prop where
  callbacks : list.callbacks = other.callbacks
  logCursor : list.logCursor = other.logCursor
  parallelStartPos : list.parallelStartPos = other.parallelStartPos
  length : list.length = other.length
  appended : list.appended = other.appended
  logged : list.logged = other.logged
  removed : list.removed = other.removed
  unlogRemoved : list.unlogRemoved = other.unlogRemoved

theorem SameAccount.accounted {other : TxCallbackList} (hsame : SameAccount list other)
    (h : Accounted other 0) : Accounted list 0 := by
  obtain ⟨hcallbacks, hcursor, hstart, hlength, happended, hlogged, hremoved, hunlog⟩ := hsame
  refine ⟨?_, ?_, ?_, ?_, ?_, ?_⟩
  · rw [addrs, hcallbacks]
    exact h.nodup
  · rw [hcursor, addrs, hcallbacks]
    exact h.cursor_linked
  · rw [hstart, addrs, hcallbacks]
    exact h.start_linked
  · rw [hlength, hcallbacks]
    exact h.length_eq
  · rw [hcallbacks, hremoved, happended]
    exact h.appended_eq
  · rw [happended, hlogged, hunlog, waiting, hcallbacks]
    exact h.logged_eq

theorem SameAccount.refl (list : TxCallbackList) : SameAccount list list :=
  ⟨rfl, rfl, rfl, rfl, rfl, rfl, rfl, rfl⟩

theorem SameAccount.trans {other third : TxCallbackList} (h : SameAccount list other)
    (h' : SameAccount other third) : SameAccount list third :=
  ⟨h.1.trans h'.1, h.2.trans h'.2, h.3.trans h'.3, h.4.trans h'.4, h.5.trans h'.5,
    h.6.trans h'.6, h.7.trans h'.7, h.8.trans h'.8⟩

theorem sameAccount_finish (mgr : CallbackMgr) (lastScn : σ → Nat) (done : Traversal σ) :
    SameAccount (finish mgr lastScn done).2 done.list := by
  unfold finish ensureChecksum
  split_ifs <;> exact ⟨rfl, rfl, rfl, rfl, rfl, rfl, rfl, rfl⟩

theorem sameAccount_countBranch (toSeq : TxSeq) (done : Traversal σ) :
    SameAccount (countBranch toSeq done).list done.list := by
  unfold countBranch
  split <;> exact ⟨rfl, rfl, rfl, rfl, rfl, rfl, rfl, rfl⟩

/-- The effects of a call on callbacks, pointers and counters. -/
inductive Effect (list : TxCallbackList) : TxCallbackList → Prop
  | same {next : TxCallbackList} (hsame : SameAccount next list) : Effect list next
  | visited {σ : Type} (mgr : CallbackMgr) (functor : Functor σ) (state : σ)
      (start stop : Option Nat) {next : TxCallbackList}
      (hforward : functor.isReverse = false)
      (hsame : SameAccount next (list.callback mgr functor state start stop).list) :
      Effect list next
  | linked {batch : List TxCallback} {mode : AppendMode} {first : Nat} {dataSize : Int}
      (hbatch : Appendable list batch mode)
      (hfirst : batch.head?.map addr = some first) :
      Effect list (list.link batch batch.length dataSize (some first) mode)
  | submitted {scope : CallbackScope} {fillRedo : TxCallback → ObRet} {scn : Nat}
      (hscope : scopeOf (list.fillLog fillRedo) = some scope) :
      Effect list (list.logSubmitted scope scn)
  | replayFailed {mgr : CallbackMgr} {scn : Nat} {serialReplay : Bool}
      {rollback : TxCallback → ObRet} :
      Effect list (list.replayFail mgr scn serialReplay rollback)

theorem call_effect {event : Event} (hpermitted : list.Permitted event) :
    Effect list (list.call event).2 := by
  cases event with
  | append callback mode outcome =>
    obtain ⟨hfresh, hscn⟩ := hpermitted
    rcases appendCallback_cases list callback mode outcome with
      ⟨-, heq⟩ | ⟨hvalid, horder, heq⟩
    · exact .same (by rw [call, heq]; exact .refl list)
    rw [call, heq]
    have hbatch : Appendable list ([callback].map (prepared mode)) mode :=
      .of_prepared (nodup_singleton _)
        (fun item hitem => by rw [mem_singleton.mp hitem]; exact ⟨hfresh, hscn⟩)
        hvalid horder
    exact .linked hbatch rfl
  | appendBatch batch length mode outcome =>
    obtain ⟨hnodup, hfresh, rfl⟩ := hpermitted
    rcases appendCallbacks_cases list batch batch.length mode outcome with
      ⟨-, heq⟩ | ⟨head, rest, rfl, hvalid, horder, dataSize, heq⟩
    · exact .same (by rw [call, heq]; exact .refl list)
    · rw [call, heq, ← length_map (prepared mode)]
      exact .linked (.of_prepared hnodup hfresh hvalid horder) rfl
  | submitLog => exact .submitted hpermitted.choose_spec
  | syncLogSucc | replaySucc => exact .same ⟨rfl, rfl, rfl, rfl, rfl, rfl, rfl, rfl⟩
  | fastCommit mgr stopScn checkpoint | removeMemtable mgr memtableSet stopScn checkpoint
  | calcChecksumBefore mgr =>
    exact .visited mgr _ _ _ _ rfl (sameAccount_finish mgr _ _)
  | rollbackTo mgr toSeq =>
    exact .visited mgr _ _ _ _ rfl
      ((sameAccount_finish mgr _ _).trans (sameAccount_countBranch toSeq _))
  | syncLogFail mgr scope logSyncFail =>
    exact .visited mgr (syncLogFailFunctor logSyncFail) _ _ _ rfl (.refl _)
  | cleanUnlog mgr =>
    rw [call, cleanUnlogCallbacks]
    split
    · exact .same (.refl list)
    · exact .visited mgr cleanUnlogFunctor _ _ _ rfl (.refl _)
  | replayFail => exact .replayFailed
  | calcChecksumAll mgr =>
    rw [call, txCalcChecksumAll]
    split
    · exact .same (.refl list)
    · exact .visited mgr _ _ _ _ rfl (sameAccount_finish mgr _ _)

theorem Accounted.effect {next : TxCallbackList} (h : Accounted list 0)
    (heffect : Effect list next) : Accounted next 0 := by
  cases heffect with
  | same hsame => exact hsame.accounted h
  | visited mgr functor state start stop hforward hsame =>
    exact hsame.accounted (h.callback mgr functor state start stop)
  | linked hbatch hfirst => exact h.link hbatch hfirst _
  | submitted hscope =>
    obtain ⟨front, run, back, hfilled⟩ := filled_of_fillLog h hscope
    exact h.logSubmitted hfilled _
  | replayFailed => exact h.replayFail _ _ _ _

end SeekDB.TxCallbackList
