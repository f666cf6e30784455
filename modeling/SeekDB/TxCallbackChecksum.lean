/-
The checksum of a transaction's callbacks does not depend on when they are
released.

Every operation sums up the logged callbacks it visits from `checksum_scn_` on,
before it removes any of them, and then moves `checksum_scn_` behind the log of
the last one.  So what was summed up is always a whole number of logs, and what
is still to be summed up is always linked.
-/
import SeekDB.TxCallbackCursor

namespace SeekDB.TxCallbackList

open List PointerList

variable {rest kept visited : List TxCallback} {iter item : TxCallback} {bound later : Nat}
  {σ : Type} {list : TxCallbackList} {mgr : CallbackMgr} {checksumScn : Nat}

/-- What a callback adds to the checksum. -/
def bytes (callback : TxCallback) : List UInt8 := callback.checksumData.getD []

/-- The callback is left out of the sums from `checksumScn` on. -/
def Skipped (checksumScn : Nat) (callback : TxCallback) : Prop :=
  callback.needSubmitLog = true ∨ callback.scn < checksumScn

instance (checksumScn : Nat) (callback : TxCallback) : Decidable (Skipped checksumScn callback) :=
  inferInstanceAs (Decidable (_ ∨ _))

/-- What a visit adds to the checksum. -/
def fresh (checksumScn : Nat) (callback : TxCallback) : List UInt8 :=
  if Skipped checksumScn callback then [] else bytes callback

/-- The numbers of the callbacks in a list. -/
structure Numbered (callback : TxCallback) : Prop where
  waiting : callback.needSubmitLog = true → callback.scn = obMaxScnTsNs
  logged : callback.needSubmitLog = false → 0 < callback.scn ∧ callback.scn < obMaxScnTsNs

variable {callback : TxCallback}

theorem Numbered.scn_le_max (h : Numbered callback) :
    callback.scn ≤ obMaxScnTsNs := by
  cases hneed : callback.needSubmitLog with
  | true => exact (h.waiting hneed).le
  | false => exact (h.logged hneed).2.le

theorem Numbered.scn_valid (h : Numbered callback) :
    scnIsValid callback.scn = true := by
  have hbound := h.scn_le_max
  unfold obMaxScnTsNs at hbound
  apply decide_eq_true
  omega

theorem Numbered.scn_pos (h : Numbered callback) :
    callback.scn ≠ obMinScnTsNs := by
  cases hneed : callback.needSubmitLog with
  | true =>
    rw [h.waiting hneed]
    decide
  | false => exact (h.logged hneed).1.ne'

/-- A functor that sums up what it visits and remembers the number of the last
callback it summed up; it stops at the end of a log. -/
structure Sums (functor : Functor σ) (checksumScn : Nat) (lastScn : σ → Nat) (ok : σ → Prop) :
    Prop where
  forward : functor.isReverse = false
  visit_ok : ∀ state sum iter, Numbered iter → ok state →
    functor.isIterEnd state iter = false → (functor.visit state sum iter).ret = .success →
    ok (functor.visit state sum iter).state
  visit_sum : ∀ state sum iter, Numbered iter → functor.isIterEnd state iter = false →
    (functor.visit state sum iter).ret = .success →
    (functor.visit state sum iter).checksum.value = obCrc64 sum.value (fresh checksumScn iter)
  visit_last : ∀ state sum iter, Numbered iter → functor.isIterEnd state iter = false →
    (functor.visit state sum iter).ret = .success →
    (lastScn (functor.visit state sum iter).state = iter.scn ∧ iter.needSubmitLog = false) ∨
    (lastScn (functor.visit state sum iter).state = lastScn state ∧ Skipped checksumScn iter)
  stop : ∀ state iter, Numbered iter → ok state → functor.isIterEnd state iter = true →
    iter.needSubmitLog = false → iter.scn ≠ lastScn state

/-- The last number a functor remembers after its visits. -/
inductive Last (checksumScn : Nat) (before after : Nat) (visited : List TxCallback) : Prop
  | none (hlast : after = before) (hskipped : ∀ item ∈ visited, Skipped checksumScn item)
  | some (front : List TxCallback) (item : TxCallback) (back : List TxCallback)
      (hsplit : visited = front ++ item :: back) (hlast : after = item.scn)
      (hlogged : item.needSubmitLog = false)
      (hskipped : ∀ other ∈ back, Skipped checksumScn other)

theorem Last.cons {before middle after : Nat} {visited : List TxCallback} {iter : TxCallback}
    (hfirst : (middle = iter.scn ∧ iter.needSubmitLog = false) ∨
      (middle = before ∧ Skipped checksumScn iter))
    (hrest : Last checksumScn middle after visited) :
    Last checksumScn before after (iter :: visited) := by
  cases hrest with
  | none hlast hskipped =>
    rcases hfirst with ⟨hmiddle, hlogged⟩ | ⟨hmiddle, hskip⟩
    · exact .some [] iter visited rfl (hlast.trans hmiddle) hlogged hskipped
    · exact .none (hlast.trans hmiddle) (forall_mem_cons.mpr ⟨hskip, hskipped⟩)
  | some front item back hsplit hlast hlogged hskipped =>
    exact .some (iter :: front) item back (by rw [hsplit]; rfl) hlast hlogged hskipped

/-- What a loop leaves when it ends without error: it visited the first part of
its range and removed some of it. -/
structure Visited (functor : Functor σ) (checksumScn : Nat) (lastScn : σ → Nat) (ok : σ → Prop)
    (start final : Traversal σ) (left kept visited rest tail : List TxCallback) : Prop where
  kept_sub : kept.Sublist visited
  callbacks : final.list.callbacks = left ++ kept ++ rest ++ tail
  sum : final.list.batchChecksum.value =
    obCrc64 start.list.batchChecksum.value (visited.flatMap (fresh checksumScn))
  state_ok : ok final.state
  last : Last checksumScn (lastScn start.state) (lastScn final.state) visited
  stopped : rest = [] ∨ ∃ item others, rest = item :: others ∧
    functor.isIterEnd final.state item = true
  checksumScn_eq : final.list.checksumScn = start.list.checksumScn
  checksum_eq : final.list.checksum = start.list.checksum
  syncScn_eq : final.list.syncScn = start.list.syncScn

theorem value_removeCallback (list : TxCallbackList) (isReverse : Bool) (iter : TxCallback) :
    (list.removeCallback isReverse iter).batchChecksum.value = list.batchChecksum.value := by
  simp only [removeCallback]
  split
  · exact BatchChecksum.value_calcSum _
  · rfl

theorem Visited.cons {functor : Functor σ} {lastScn : σ → Nat} {ok : σ → Prop}
    {start middle final : Traversal σ} {left left' kept kept' visited rest tail : List TxCallback}
    {iter : TxCallback}
    (h : Visited functor checksumScn lastScn ok middle final left' kept' visited rest tail)
    (hkept : kept.Sublist (iter :: visited)) (hleft : left' ++ kept' = left ++ kept)
    (hsum : middle.list.batchChecksum.value =
      obCrc64 start.list.batchChecksum.value (fresh checksumScn iter))
    (hlast : (lastScn middle.state = iter.scn ∧ iter.needSubmitLog = false) ∨
      (lastScn middle.state = lastScn start.state ∧ Skipped checksumScn iter))
    (hchecksumScn : middle.list.checksumScn = start.list.checksumScn)
    (hchecksum : middle.list.checksum = start.list.checksum)
    (hsyncScn : middle.list.syncScn = start.list.syncScn) :
    Visited functor checksumScn lastScn ok start final left kept (iter :: visited) rest tail where
  kept_sub := hkept
  callbacks := by rw [h.callbacks, hleft]
  sum := by rw [h.sum, hsum, flatMap_cons, obCrc64_append]
  state_ok := h.state_ok
  last := .cons hlast h.last
  stopped := h.stopped
  checksumScn_eq := h.checksumScn_eq.trans hchecksumScn
  checksum_eq := h.checksum_eq.trans hchecksum
  syncScn_eq := h.syncScn_eq.trans hsyncScn

/-- The loop after one visit. -/
def visitedBy (functor : Functor σ) (done : Traversal σ) (iter : TxCallback) : Traversal σ :=
  let visit := functor.visit done.state done.list.batchChecksum iter
  { done with
    ret := visit.ret
    state := visit.state
    list := { done.list with batchChecksum := visit.checksum } }

/-- The loop after one removal. -/
def removedBy (functor : Functor σ) (done : Traversal σ) (iter : TxCallback) : Traversal σ :=
  { visitedBy functor done iter with
    removeCnt := done.removeCnt + 1
    list := (visitedBy functor done iter).list.removeCallback functor.isReverse iter }

theorem traverse_cons (mgr : CallbackMgr) (functor : Functor σ) (iter : TxCallback)
    (rest : List TxCallback) (done : Traversal σ) :
    traverse mgr functor (iter :: rest) done =
      if iter.scn = obMinScnTsNs then { done with ret := .errUnexpected }
      else if functor.isIterEnd done.state iter then done
      else if (functor.visit done.state done.list.batchChecksum iter).ret ≠ .success then
        visitedBy functor done iter
      else if !(functor.visit done.state done.list.batchChecksum iter).needRemoveCallback then
        traverse mgr functor rest (visitedBy functor done iter)
      else if (visitedBy functor done iter).list.removeTooEarly mgr iter.scn then
        { visitedBy functor done iter with ret := .errUnexpected }
      else traverse mgr functor rest (removedBy functor done iter) :=
  rfl

variable {functor : Functor σ}

theorem traverse_cons_success {done : Traversal σ} (hscn : iter.scn ≠ obMinScnTsNs)
    (hret : (traverse mgr functor (iter :: rest) done).ret = .success) :
    (functor.isIterEnd done.state iter = true ∧ traverse mgr functor (iter :: rest) done = done) ∨
    (functor.isIterEnd done.state iter = false ∧
      (functor.visit done.state done.list.batchChecksum iter).ret = .success ∧
      (traverse mgr functor (iter :: rest) done =
        traverse mgr functor rest (visitedBy functor done iter) ∨
      traverse mgr functor (iter :: rest) done =
        traverse mgr functor rest (removedBy functor done iter))) := by
  rw [traverse_cons, if_neg hscn] at hret ⊢
  by_cases hend : functor.isIterEnd done.state iter = true
  · rw [if_pos hend]
    exact .inl ⟨hend, rfl⟩
  rw [if_neg hend] at hret ⊢
  refine .inr ⟨by simpa using hend, ?_⟩
  by_cases hfail : (functor.visit done.state done.list.batchChecksum iter).ret ≠ .success
  · rw [if_pos hfail] at hret
    exact absurd hret hfail
  rw [if_neg hfail] at hret ⊢
  refine ⟨not_not.mp hfail, ?_⟩
  split_ifs at hret ⊢
  · exact .inl rfl
  · exact .inr rfl

variable {lastScn : σ → Nat} {ok : σ → Prop}

theorem traverse_visited (hsums : Sums functor checksumScn lastScn ok) (todo : List TxCallback)
    (done : Traversal σ) (left tail : List TxCallback)
    (hcallbacks : done.list.callbacks = left ++ todo ++ tail) (hnodup : done.list.addrs.Nodup)
    (hnumbered : ∀ iter ∈ todo, Numbered iter) (hok : ok done.state)
    (hret : (traverse mgr functor todo done).ret = .success) :
    ∃ kept visited rest, todo = visited ++ rest ∧
      Visited functor checksumScn lastScn ok done (traverse mgr functor todo done)
        left kept visited rest tail := by
  induction todo generalizing done left with
  | nil =>
    exact ⟨[], [], [], rfl, ⟨List.Sublist.refl _, hcallbacks.trans (by simp), rfl, hok,
      .none rfl (by simp), .inl rfl, rfl, rfl, rfl⟩⟩
  | cons iter others ih =>
    have hiter := hnumbered iter mem_cons_self
    have hothers : ∀ item ∈ others, Numbered item :=
      fun item hitem => hnumbered item (mem_cons_of_mem iter hitem)
    rcases traverse_cons_success hiter.scn_pos hret with ⟨hend, heq⟩ | ⟨hgo, hsucc, heq⟩
    · rw [heq]
      exact ⟨[], [], iter :: others, rfl, ⟨List.Sublist.refl _, hcallbacks.trans (by simp),
        rfl, hok, .none rfl (by simp), .inr ⟨iter, others, rfl, hend⟩, rfl, rfl, rfl⟩⟩
    have hok' := hsums.visit_ok _ _ _ hiter hok hgo hsucc
    have hsum := hsums.visit_sum _ _ _ hiter hgo hsucc
    have hlast := hsums.visit_last _ _ _ hiter hgo hsucc
    rcases heq with heq | heq
    · -- the callback stays linked
      rw [heq] at hret ⊢
      obtain ⟨kept, visited, rest, rfl, hdone⟩ := ih (visitedBy functor done iter)
        (left ++ [iter]) (hcallbacks.trans (by simp)) hnodup hothers hok' hret
      exact ⟨iter :: kept, iter :: visited, rest, rfl,
        hdone.cons (hdone.kept_sub.cons_cons iter) (by simp) hsum hlast rfl rfl rfl⟩
    rw [heq] at hret ⊢
    have hsplit : done.list.callbacks = left ++ iter :: (others ++ tail) :=
      hcallbacks.trans (by simp)
    have hsides : ((left ++ iter :: (others ++ tail)).map TxCallback.addr).Nodup := by
      rw [← hsplit]
      exact hnodup
    obtain ⟨hfront, hback⟩ := notMem_of_middle hsides
    have hremoved : (removedBy functor done iter).list.callbacks = left ++ others ++ tail := by
      rw [append_assoc, ← remove_split hfront hback, ← hsplit]
      rfl
    obtain ⟨kept, visited, rest, rfl, hdone⟩ := ih (removedBy functor done iter)
      left hremoved ((filter_sublist.map TxCallback.addr).nodup hnodup) hothers hok' hret
    exact ⟨kept, iter :: visited, rest, rfl, hdone.cons (hdone.kept_sub.cons iter) rfl
        ((value_removeCallback _ _ _).trans hsum) hlast rfl rfl rfl⟩

/-! The functors that sum up. -/

theorem value_sumFrom (hchecksumScn : scnIsValid checksumScn = true)
    (hiter : Numbered iter) (hneed : iter.needSubmitLog = false) (sum : BatchChecksum) :
    (sumFrom (some checksumScn) iter sum).value = obCrc64 sum.value (fresh checksumScn iter) := by
  have hle := scnLe_of_valid hchecksumScn hiter.scn_valid
  by_cases hlow : checksumScn ≤ iter.scn
  · have hfresh : fresh checksumScn iter = bytes iter :=
      if_neg (by simp only [Skipped, hneed]; simp [hlow])
    have hsome : scnLe checksumScn iter.scn = true := by rw [hle]; exact decide_eq_true hlow
    rw [hfresh, bytes]
    simp only [sumFrom, TxCallback.calcChecksum, hsome, if_true]
    cases iter.checksumData with
    | none => rfl
    | some data => exact BatchChecksum.value_fill sum data
  · have hfresh : fresh checksumScn iter = [] := if_pos (.inr (Nat.lt_of_not_le hlow))
    have hnone : scnLe checksumScn iter.scn = false := by rw [hle]; exact decide_eq_false hlow
    rw [hfresh]
    simp only [sumFrom, hnone]
    rfl

/-- A number that is within a bound, or none at all. -/
def Within (bound scn : Nat) : Prop := scn = obMinScnTsNs ∨ scnLt bound scn = false

theorem Within.ne_of_beyond {scn : Nat} (h : Within bound scn)
    (hiter : Numbered iter) (hbeyond : scnLt bound iter.scn = true) : iter.scn ≠ scn := by
  intro heq
  rcases h with hmin | hin
  · exact hiter.scn_pos (heq.trans hmin)
  · rw [← heq, hbeyond] at hin
    exact Bool.noConfusion hin

/-- The ways in which a visit may end well: a callback that is not logged yet is
left out; a logged one is summed up, and its number remembered unless it was
summed up before. -/
inductive SumVisit (checksumScn : Nat) (before after : Nat) (sum total : BatchChecksum)
    (iter : TxCallback) : Prop
  | skipped (hneed : iter.needSubmitLog = true) (hlast : after = before) (hsum : total = sum)
  | again (hneed : iter.needSubmitLog = false) (hlow : scnLe checksumScn iter.scn = false)
      (hlast : after = before) (hsum : total = sumFrom (some checksumScn) iter sum)
  | summed (hneed : iter.needSubmitLog = false) (hlast : after = iter.scn)
      (hsum : total = sumFrom (some checksumScn) iter sum)

/-- A functor sums up if each of its visits does, and it goes on up to a bound. -/
theorem Sums.of_visits
    (hchecksumScn : scnIsValid checksumScn = true) (hforward : functor.isReverse = false)
    (hgo : ∀ state iter, functor.isIterEnd state iter = false → scnLt bound iter.scn = false)
    (hvisit : ∀ state sum iter, Numbered iter → functor.isIterEnd state iter = false →
      (functor.visit state sum iter).ret = .success →
      SumVisit checksumScn (lastScn state) (lastScn (functor.visit state sum iter).state) sum
        (functor.visit state sum iter).checksum iter)
    (hstop : ∀ state iter, functor.isIterEnd state iter = true → iter.needSubmitLog = false →
      scnLt bound iter.scn = true ∨ iter.scn = obMinScnTsNs ∨ iter.scn = obMaxScnTsNs ∨
        iter.scn ≠ lastScn state) :
    Sums functor checksumScn lastScn (fun state => Within bound (lastScn state)) := by
  refine ⟨hforward, ?_, ?_, ?_, ?_⟩
  · intro state sum iter hiter hok hend hret
    cases hvisit state sum iter hiter hend hret with
    | skipped hneed hlast hsum | again hneed hlow hlast hsum => exact hlast ▸ hok
    | summed hneed hlast => exact hlast ▸ .inr (hgo state iter hend)
  · intro state sum iter hiter hend hret
    cases hvisit state sum iter hiter hend hret with
    | skipped hneed hlast hsum =>
      have hfresh : fresh checksumScn iter = [] := if_pos (.inl hneed)
      rw [hsum, hfresh]
      rfl
    | again hneed hlow hlast hsum | summed hneed hlast hsum =>
      rw [hsum]
      exact value_sumFrom hchecksumScn hiter hneed sum
  · intro state sum iter hiter hend hret
    cases hvisit state sum iter hiter hend hret with
    | skipped hneed hlast => exact .inr ⟨hlast, .inl hneed⟩
    | again hneed hlow hlast =>
      rw [scnLe_of_valid hchecksumScn hiter.scn_valid, decide_eq_false_iff_not] at hlow
      exact .inr ⟨hlast, .inr (Nat.lt_of_not_le hlow)⟩
    | summed hneed hlast => exact .inl ⟨hlast, hneed⟩
  · intro state iter hiter hok hend hneed
    rcases hstop state iter hend hneed with hbeyond | hmin | hmax | hne
    · exact hok.ne_of_beyond hiter hbeyond
    · exact absurd hmin hiter.scn_pos
    · exact absurd hmax (hiter.logged hneed).2.ne
    · exact hne

theorem sums_fastCommit (bound : Nat) (hchecksumScn : scnIsValid checksumScn = true)
    (checkpoint : TxCallback → ObRet) :
    Sums (fastCommitFunctor bound (some checksumScn) checkpoint) checksumScn
      FastCommitState.lastScnForRemove (fun state => Within bound state.lastScnForRemove) := by
  apply Sums.of_visits hchecksumScn rfl
  · intro state iter hend
    simp only [fastCommitFunctor, Bool.or_eq_false_iff] at hend
    exact hend.1.1.2
  · intro state sum iter hiter hend hret
    simp only [fastCommitFunctor, Bool.or_eq_false_iff] at hend
    simp only [fastCommitFunctor] at hret ⊢
    split_ifs at hret ⊢ with hfail
    · exact absurd hret hfail
    · exact .summed hend.1.1.1 rfl rfl
  · intro state iter hend hneed
    simp only [fastCommitFunctor, hneed, Bool.false_or, Bool.or_eq_true, Bool.and_eq_true,
      beq_iff_eq, bne_iff_ne] at hend
    rcases hend with (hbeyond | hmin) | ⟨-, hne⟩
    · exact .inl hbeyond
    · exact .inr (.inl hmin)
    · exact .inr (.inr (.inr hne))

theorem sums_removeSync (bound : Nat) (hchecksumScn : scnIsValid checksumScn = true)
    (condForRemove : TxCallback → Bool) (release : TxCallback → ObRet) :
    Sums (removeSyncFunctor false (some checksumScn) condForRemove
      (fun iter => scnLt bound iter.scn) release) checksumScn id (Within bound) := by
  apply Sums.of_visits hchecksumScn rfl
  · intro state iter hend
    simp only [removeSyncFunctor, Bool.or_eq_false_iff] at hend
    exact hend.2
  · intro state sum iter hiter hend hret
    simp only [removeSyncFunctor, Bool.or_eq_false_iff] at hend
    simp only [removeSyncFunctor, hend.1.1, Bool.and_false, Bool.or_false, Bool.false_eq_true,
      if_false, Option.any_some] at hret ⊢
    have hlast : SumVisit checksumScn state
        (if scnLe checksumScn iter.scn then iter.scn else state) sum
        (sumFrom (some checksumScn) iter sum) iter := by
      split
      · exact .summed hend.1.1 rfl rfl
      · rename_i hlow
        exact .again hend.1.1 (by simpa using hlow) rfl rfl
    split
    · exact hlast
    · split <;> exact hlast
  · intro state iter hend hneed
    simp only [removeSyncFunctor, hneed, Bool.false_or, Bool.or_eq_true, beq_iff_eq] at hend
    rcases hend with hmax | hbeyond
    · exact .inr (.inr (.inl hmax))
    · exact .inl hbeyond

theorem sums_remove (bound : Nat) (hchecksumScn : scnIsValid checksumScn = true)
    (condForRemove : TxCallback → ObRet × Bool) (release : TxCallback → ObRet) :
    Sums (removeFunctor bound (some checksumScn) condForRemove release) checksumScn id
      (Within bound) := by
  apply Sums.of_visits hchecksumScn rfl
  · intro state iter hend
    exact hend
  · intro state sum iter hiter hend hret
    simp only [removeFunctor] at hret ⊢
    split at hret
    · rename_i ret hcond
      by_cases hneed : iter.needSubmitLog = true
      · rw [if_pos hneed]
        split <;> exact .skipped hneed rfl rfl
      rw [if_neg hneed] at hret ⊢
      split
      · rename_i hfail
        rw [if_pos hfail] at hret
        exact absurd hret hfail
      · exact .summed (by simpa using hneed) rfl rfl
    · rename_i ret hcond
      by_cases hneed : iter.needSubmitLog = true
      · rw [if_pos (.inr hneed)]
        exact .skipped hneed rfl rfl
      split
      · rename_i hfail
        rw [if_pos hfail] at hret
        exact absurd hret (hfail.resolve_right hneed)
      · exact .summed (by simpa using hneed) rfl rfl
  · intro state iter hend hneed
    exact .inl hend

theorem scnLt_max (hbound : bound ≠ obMaxScnTsNs) :
    scnLt bound obMaxScnTsNs = true := by
  cases hvalid : scnIsValid bound with
  | false =>
    simp only [scnLt, hvalid, if_true]
    decide
  | true =>
    rw [scnLt_of_valid hvalid (by decide), decide_eq_true_eq]
    have hlt : bound < 2 ^ 62 := by simpa [scnIsValid] using hvalid
    unfold obMaxScnTsNs at hbound ⊢
    omega

theorem sums_calcChecksum (hbound : bound ≠ obMaxScnTsNs)
    (hchecksumScn : scnIsValid checksumScn = true) :
    Sums (calcChecksumFunctor bound checksumScn) checksumScn id (Within bound) := by
  apply Sums.of_visits hchecksumScn rfl
  · intro state iter hend
    exact hend
  · intro state sum iter hiter hend hret
    have hneed : iter.needSubmitLog = false := by
      rw [← Bool.not_eq_true]
      intro hwait
      have hin : scnLt bound iter.scn = false := hend
      rw [hiter.waiting hwait, scnLt_max hbound] at hin
      exact Bool.noConfusion hin
    simp only [calcChecksumFunctor] at hret ⊢
    rw [if_neg (by rw [show scnLt bound iter.scn = false from hend]; decide)]
    exact .summed hneed rfl rfl
  · intro state iter hend hneed
    exact .inl hend

/-! What was summed up and what is still to come. -/

/-- The callbacks that are still to be summed up. -/
def unsummed (checksumScn : Nat) (callbacks : List TxCallback) : List TxCallback :=
  callbacks.filter (fun item => decide (¬Skipped checksumScn item))

/-- The callbacks that were summed up. -/
def summed (checksumScn : Nat) (callbacks : List TxCallback) : List TxCallback :=
  callbacks.filter (fun item => decide (Skipped checksumScn item))

theorem unsummed_append (front back : List TxCallback) : unsummed checksumScn (front ++ back) =
      unsummed checksumScn front ++ unsummed checksumScn back :=
  filter_append front back

variable {callbacks : List TxCallback}

theorem unsummed_eq_nil
    (h : ∀ item ∈ callbacks, Skipped checksumScn item) : unsummed checksumScn callbacks = [] :=
  filter_eq_nil_iff.mpr (fun item hitem => by simp [h item hitem])

theorem flatMap_fresh (callbacks : List TxCallback) : callbacks.flatMap (fresh checksumScn) =
      (unsummed checksumScn callbacks).flatMap bytes := by
  induction callbacks with
  | nil => rfl
  | cons item rest ih =>
    by_cases hskip : Skipped checksumScn item
    · have hfresh : fresh checksumScn item = [] := if_pos hskip
      rw [flatMap_cons, hfresh, ih]
      simp [unsummed, hskip]
    · have hfresh : fresh checksumScn item = bytes item := if_neg hskip
      rw [flatMap_cons, hfresh, ih]
      simp [unsummed, hskip]

theorem Skipped.mono (h : Skipped checksumScn item) (hle : checksumScn ≤ later) :
    Skipped later item :=
  h.imp id (fun hlt => Nat.lt_of_lt_of_le hlt hle)

theorem unsummed_later (hle : checksumScn ≤ later) (callbacks : List TxCallback) :
    unsummed later callbacks = unsummed later (unsummed checksumScn callbacks) := by
  rw [unsummed, unsummed, unsummed, filter_filter]
  apply filter_congr
  intro item _
  by_cases hskip : Skipped checksumScn item
  · simp [hskip, hskip.mono hle]
  · simp [hskip]

theorem summed_append_unsummed
    (hsorted : callbacks.Pairwise (fun left right => left.scn ≤ right.scn))
    (hlogged : ∀ item ∈ callbacks, item.needSubmitLog = false) :
    summed checksumScn callbacks ++ unsummed checksumScn callbacks = callbacks := by
  induction callbacks with
  | nil => rfl
  | cons item rest ih =>
    rw [pairwise_cons] at hsorted
    have hrest := ih hsorted.2 (fun other hother => hlogged other (mem_cons_of_mem _ hother))
    by_cases hskip : Skipped checksumScn item
    · simp only [summed, unsummed, filter_cons, hskip] at hrest ⊢
      simpa using hrest
    have hnone : ∀ other ∈ item :: rest, ¬Skipped checksumScn other := by
      have hhigh : checksumScn ≤ item.scn := by
        by_contra hlt
        exact hskip (.inr (Nat.lt_of_not_le hlt))
      intro other hother hskip'
      rcases hskip' with hneed | hlow
      · rw [hlogged other hother] at hneed
        exact Bool.noConfusion hneed
      rcases mem_cons.mp hother with rfl | hmem
      · omega
      · have hle := hsorted.1 other hmem
        omega
    have hsummed : summed checksumScn (item :: rest) = [] :=
      filter_eq_nil_iff.mpr (fun other hother => by simp [hnone other hother])
    have hunsummed : unsummed checksumScn (item :: rest) = item :: rest :=
      filter_eq_self.mpr (fun other hother => by simp [hnone other hother])
    rw [hsummed, hunsummed]
    rfl

/-- What was summed up by a later number is what was summed up before and the
beginning of what was still to come. -/
theorem summed_later (hle : checksumScn ≤ later)
    (hsorted : callbacks.Pairwise (fun left right => left.scn ≤ right.scn))
    (hlogged : ∀ item ∈ callbacks, item.needSubmitLog = false) :
    summed later callbacks =
      summed checksumScn callbacks ++ summed later (unsummed checksumScn callbacks) := by
  have hsplit : summed checksumScn callbacks ++ unsummed checksumScn callbacks = callbacks :=
    summed_append_unsummed hsorted hlogged
  conv_lhs => rw [← hsplit]
  rw [summed, filter_append]
  congr 1
  apply filter_eq_self.mpr
  intro item hitem
  have hskip : Skipped checksumScn item := by simpa using (mem_filter.mp hitem).2
  exact decide_eq_true (hskip.mono hle)

/-- A list that has summed up the callbacks of `logged` with numbers below
`checksum_scn_`, and that still links all the others. -/
structure Summed (list : TxCallbackList) (logged : List TxCallback) : Prop where
  numbered : ∀ item ∈ list.callbacks, Numbered item
  sorted : list.callbacks.Pairwise (fun left right => left.scn ≤ right.scn)
  linked : ∀ item ∈ list.callbacks, item.needSubmitLog = false → item ∈ logged
  logged_done : ∀ item ∈ logged, item.needSubmitLog = false ∧ Numbered item
  logged_sorted : logged.Pairwise (fun left right => left.scn ≤ right.scn)
  pending : unsummed list.checksumScn list.callbacks = unsummed list.checksumScn logged
  sum : list.batchChecksum.value = obCrc64 0 ((summed list.checksumScn logged).flatMap bytes)
  behind : list.checksumScn = obMinScnTsNs ∨ ∃ item ∈ logged, list.checksumScn = item.scn + 1
  checksum : list.checksum = 0
  syncScn : list.syncScn ≠ obMaxScnTsNs

variable {logged : List TxCallback}

theorem Summed.checksumScn_valid (h : Summed list logged) :
    scnIsValid list.checksumScn = true := by
  rcases h.behind with hmin | ⟨item, hitem, heq⟩
  · rw [hmin]
    decide
  obtain ⟨hneed, hnumbered⟩ := h.logged_done item hitem
  have hlt := (hnumbered.logged hneed).2
  apply decide_eq_true
  unfold obMaxScnTsNs at hlt
  omega

/-- The summing functor has come to the end of a log: what it did not visit has
larger numbers than the last callback it summed up. -/
theorem Visited.rest_beyond
    {start final : Traversal σ} {tail front back : List TxCallback}
    (hsums : Sums functor checksumScn lastScn ok)
    (hvisited : Visited functor checksumScn lastScn ok start final [] kept visited rest tail)
    (hsplit : visited = front ++ item :: back) (hlast : lastScn final.state = item.scn)
    (hnumbered : ∀ other ∈ visited ++ rest ++ tail, Numbered other)
    (hsorted : (visited ++ rest ++ tail).Pairwise (fun left right => left.scn ≤ right.scn))
    (htail : ∀ other ∈ tail, other.needSubmitLog = true) :
    ∀ other ∈ rest ++ tail, other.needSubmitLog = false → item.scn < other.scn := by
  intro other hother hneed
  have hrest : other ∈ rest := by
    rcases mem_append.mp hother with hin | hin
    · exact hin
    · rw [htail other hin] at hneed
      exact Bool.noConfusion hneed
  rcases hvisited.stopped with hnil | ⟨first, others, rfl, hend⟩
  · rw [hnil] at hrest
    exact absurd hrest not_mem_nil
  rw [append_assoc, pairwise_append] at hsorted
  obtain ⟨-, hafter, hacross⟩ := hsorted
  have hitem : item ∈ visited := by
    rw [hsplit]
    exact mem_append_right _ mem_cons_self
  have hfirst : first ∈ visited ++ (first :: others) ++ tail :=
    mem_append_left _ (mem_append_right _ mem_cons_self)
  have hle : item.scn ≤ first.scn :=
    hacross item hitem first (mem_append_left _ mem_cons_self)
  have hle' : first.scn ≤ other.scn := by
    rcases mem_cons.mp hrest with rfl | hmem
    · exact le_rfl
    · rw [cons_append, pairwise_cons] at hafter
      exact hafter.1 other (mem_append_left _ hmem)
  have hotherNumbered := hnumbered other
    (mem_append_left _ (mem_append_right _ hrest))
  -- a callback that still waits has the largest number, so it is not in front
  have hfirstLogged : first.needSubmitLog = false := by
    rw [← Bool.not_eq_true]
    intro hwait
    have hmax := (hnumbered first hfirst).waiting hwait
    have hlt := (hotherNumbered.logged hneed).2
    omega
  have hne := hsums.stop _ _ (hnumbered first hfirst) hvisited.state_ok hend hfirstLogged
  rw [hlast] at hne
  omega

theorem ensureChecksum_low {scn : Nat} (hskip : mgr.skipChecksumCalc = false)
    (hlow : scn = obMinScnTsNs ∨ scnLt scn list.checksumScn = true) :
    list.ensureChecksum mgr scn = list := by
  unfold ensureChecksum
  rw [if_neg (by rw [hskip]; decide)]
  rcases hlow with rfl | hlt
  · rw [if_neg (by decide), if_pos rfl]
  · split_ifs <;> rfl

theorem ensureChecksum_high {scn : Nat} (hskip : mgr.skipChecksumCalc = false)
    (hvalid : scnIsValid list.checksumScn = true) (hle : list.checksumScn ≤ scn)
    (hpos : scn ≠ obMinScnTsNs) (hlt : scn < obMaxScnTsNs) :
    list.ensureChecksum mgr scn =
      { list with
        checksumScn := scn + 1
        tmpChecksum := nonzero list.batchChecksum.calcSum.1
        batchChecksum := list.batchChecksum.calcSum.2 } := by
  have hbound : scn + 1 < 2 ^ 62 := by
    unfold obMaxScnTsNs at hlt
    omega
  have hscn : scnIsValid scn = true := decide_eq_true (by omega)
  have hplus : scnPlus scn 1 = scn + 1 := by
    have hu64 : u64 (scn + 1) = scn + 1 := u64_eq_of_lt (by unfold uint64Modulus; omega)
    unfold scnPlus
    rw [if_neg (by rw [hscn]; decide), hu64, if_neg (by unfold obMaxScnTsNs; omega)]
  unfold ensureChecksum
  rw [if_neg (by rw [hskip]; decide), if_neg (by rw [hscn]; decide), if_neg hpos,
    if_neg (by rw [scnLt_of_valid hscn hvalid]; simpa using hle), if_neg hlt.ne, hplus]

variable {next : TxCallbackList}

theorem Summed.unchanged (h : Summed list logged)
    (hsplit : list.callbacks = visited ++ rest) (hkept : kept.Sublist visited)
    (hskipped : ∀ item ∈ visited, Skipped list.checksumScn item)
    (hcallbacks : next.callbacks = kept ++ rest)
    (hsum : next.batchChecksum.value = obCrc64 list.batchChecksum.value
      (visited.flatMap (fresh list.checksumScn)))
    (hchecksumScn : next.checksumScn = list.checksumScn) (hchecksum : next.checksum = list.checksum)
    (hsyncScn : next.syncScn = list.syncScn) :
    Summed next logged := by
  have hsub : next.callbacks.Sublist list.callbacks := by
    rw [hcallbacks, hsplit]
    exact hkept.append_right rest
  have hpending : unsummed list.checksumScn next.callbacks =
      unsummed list.checksumScn list.callbacks := by
    rw [hcallbacks, hsplit, unsummed_append, unsummed_append, unsummed_eq_nil hskipped,
      unsummed_eq_nil (fun item hitem => hskipped item (hkept.subset hitem))]
  refine ⟨fun item hitem => h.numbered item (hsub.subset hitem), h.sorted.sublist hsub,
    fun item hitem => h.linked item (hsub.subset hitem), h.logged_done, h.logged_sorted,
    ?_, ?_, ?_, hchecksum.trans h.checksum, by rw [hsyncScn]; exact h.syncScn⟩
  · rw [hchecksumScn, hpending]
    exact h.pending
  · rw [hsum, hchecksumScn, flatMap_fresh, unsummed_eq_nil hskipped]
    exact h.sum
  · rw [hchecksumScn]
    exact h.behind

theorem Summed.advanced (h : Summed list logged)
    (hsplit : list.callbacks = visited ++ rest) (hkept : kept.Sublist visited)
    (hitem : item ∈ visited) (hneed : item.needSubmitLog = false)
    (hhigh : list.checksumScn ≤ item.scn)
    (hvisited : ∀ other ∈ visited, Skipped (item.scn + 1) other)
    (hrest : ∀ other ∈ rest, other.needSubmitLog = false → item.scn < other.scn)
    (hcallbacks : next.callbacks = kept ++ rest)
    (hsum : next.batchChecksum.value = obCrc64 list.batchChecksum.value
      (visited.flatMap (fresh list.checksumScn))) (hchecksumScn : next.checksumScn = item.scn + 1)
    (hchecksum : next.checksum = list.checksum) (hsyncScn : next.syncScn = list.syncScn) :
    Summed next logged := by
  have hle : list.checksumScn ≤ item.scn + 1 := by omega
  have hsub : next.callbacks.Sublist list.callbacks := by
    rw [hcallbacks, hsplit]
    exact hkept.append_right rest
  have hdone : ∀ other ∈ logged, other.needSubmitLog = false :=
    fun other hother => (h.logged_done other hother).1
  have hpending : unsummed (item.scn + 1) next.callbacks =
      unsummed (item.scn + 1) list.callbacks := by
    rw [hcallbacks, hsplit, unsummed_append, unsummed_append, unsummed_eq_nil hvisited,
      unsummed_eq_nil (fun other hother => hvisited other (hkept.subset hother))]
  have hnew : summed (item.scn + 1) (unsummed list.checksumScn logged) =
      unsummed list.checksumScn visited := by
    have hfront : summed (item.scn + 1) (unsummed list.checksumScn visited) =
        unsummed list.checksumScn visited :=
      filter_eq_self.mpr (fun other hother =>
        decide_eq_true (hvisited other (mem_filter.mp hother).1))
    have hback : summed (item.scn + 1) (unsummed list.checksumScn rest) = [] := by
      apply filter_eq_nil_iff.mpr
      intro other hother
      obtain ⟨hmem, hnot⟩ := mem_filter.mp hother
      have hneed' : other.needSubmitLog = false := by
        rw [← Bool.not_eq_true]
        intro hwait
        exact (of_decide_eq_true hnot) (.inl hwait)
      have hlt := hrest other hmem hneed'
      simp only [Skipped, hneed', decide_eq_true_eq]
      simp
      omega
    rw [← h.pending, hsplit, unsummed_append, summed, filter_append]
    exact (congrArg₂ (· ++ ·) hfront hback).trans (append_nil _)
  refine ⟨fun other hother => h.numbered other (hsub.subset hother), h.sorted.sublist hsub,
    fun other hother => h.linked other (hsub.subset hother), h.logged_done, h.logged_sorted,
    ?_, ?_, ?_, hchecksum.trans h.checksum, by rw [hsyncScn]; exact h.syncScn⟩
  · rw [hchecksumScn, hpending, unsummed_later hle, h.pending, ← unsummed_later hle]
  · rw [hsum, hchecksumScn, flatMap_fresh, h.sum, ← obCrc64_append, ← flatMap_append,
      summed_later hle h.logged_sorted hdone, hnew]
  · refine .inr ⟨item, h.linked item ?_ hneed, hchecksumScn⟩
    rw [hsplit]
    exact mem_append_left _ hitem

/-- An operation that sums up what it visits, up to the end of some log, keeps
the sums in order. -/
theorem Summed.release {state : σ} {logged todo tail : List TxCallback}
    (h : Summed list logged) (hnodup : list.addrs.Nodup)
    (hsums : Sums functor list.checksumScn lastScn ok) (hok : ok state)
    (hstart : lastScn state = obMinScnTsNs) (hrange : list.callbacks = todo ++ tail)
    (htail : ∀ item ∈ tail, item.needSubmitLog = true) (hskip : mgr.skipChecksumCalc = false)
    (hret : (traverse mgr functor todo ⟨.success, state, 0, list⟩).ret = .success)
    (hnext : ∃ length branchRemoved, next =
      { (traverse mgr functor todo ⟨.success, state, 0, list⟩).list with
        length := length
        branchRemoved := branchRemoved }) :
    Summed (next.ensureChecksum mgr
      (lastScn (traverse mgr functor todo ⟨.success, state, 0, list⟩).state)) logged := by
  have hnumbered : ∀ item ∈ todo, Numbered item := by
    intro item hitem
    apply h.numbered
    rw [hrange]
    exact mem_append_left _ hitem
  obtain ⟨kept, visited, rest, rfl, hvisited⟩ := traverse_visited hsums todo
    ⟨.success, state, 0, list⟩ [] tail hrange hnodup hnumbered hok hret
  generalize traverse mgr functor (visited ++ rest) ⟨.success, state, 0, list⟩ = done
    at hvisited hnext ⊢
  obtain ⟨length, branchRemoved, rfl⟩ := hnext
  have hcallbacks := hvisited.callbacks
  rw [nil_append, append_assoc] at hcallbacks
  rw [append_assoc] at hrange
  -- nothing new was summed up, and the number stays where it is
  have hsame : (∀ item ∈ visited, Skipped list.checksumScn item) →
      (lastScn done.state = obMinScnTsNs ∨ scnLt (lastScn done.state) list.checksumScn = true) →
      Summed (ensureChecksum { done.list with
        length := length, branchRemoved := branchRemoved } mgr (lastScn done.state)) logged := by
    intro hskipped hlow
    rw [ensureChecksum_low hskip (by rw [← hvisited.checksumScn_eq] at hlow; exact hlow)]
    exact h.unchanged hrange hvisited.kept_sub hskipped hcallbacks hvisited.sum
      hvisited.checksumScn_eq hvisited.checksum_eq hvisited.syncScn_eq
  cases hvisited.last with
  | none hlast hskipped => exact hsame hskipped (.inl (hlast.trans hstart))
  | some front item back hsplit hlast hneed hskipped =>
    have hitem : item ∈ visited := by
      rw [hsplit]
      exact mem_append_right _ mem_cons_self
    have hitemNumbered := hnumbered item (mem_append_left _ hitem)
    have hsorted := h.sorted
    rw [hrange] at hsorted
    have hfront : ∀ other ∈ front, other.scn ≤ item.scn := by
      have hvisitedSorted := (pairwise_append.mp hsorted).1
      rw [hsplit, pairwise_append] at hvisitedSorted
      exact fun other hother => hvisitedSorted.2.2 other hother item mem_cons_self
    by_cases hhigh : list.checksumScn ≤ item.scn
    · have hrest := hvisited.rest_beyond hsums hsplit hlast
        (fun other hother => h.numbered other (by rw [hrange, ← append_assoc]; exact hother))
        (by rw [append_assoc]; exact hsorted) htail
      have hall : ∀ other ∈ visited, Skipped (item.scn + 1) other := by
        intro other hother
        rw [hsplit] at hother
        rcases mem_append.mp hother with hin | hin
        · exact .inr (Nat.lt_succ_of_le (hfront other hin))
        rcases mem_cons.mp hin with rfl | hin
        · exact .inr (Nat.lt_succ_self _)
        · exact (hskipped other hin).mono (by omega)
      rw [hlast, ensureChecksum_high hskip
        (by rw [hvisited.checksumScn_eq]; exact h.checksumScn_valid)
        (by rw [hvisited.checksumScn_eq]; exact hhigh) hitemNumbered.scn_pos
        (hitemNumbered.logged hneed).2]
      exact h.advanced hrange hvisited.kept_sub hitem hneed hhigh hall hrest hcallbacks
        ((BatchChecksum.value_calcSum _).trans hvisited.sum) rfl hvisited.checksum_eq
        hvisited.syncScn_eq
    · have hlow := Nat.lt_of_not_le hhigh
      apply hsame
      · intro other hother
        rw [hsplit] at hother
        rcases mem_append.mp hother with hin | hin
        · exact .inr (Nat.lt_of_le_of_lt (hfront other hin) hlow)
        rcases mem_cons.mp hin with rfl | hin
        · exact .inr hlow
        · exact hskipped other hin
      · rw [hlast, scnLt_of_valid hitemNumbered.scn_valid h.checksumScn_valid]
        exact .inr (decide_eq_true hlow)

end SeekDB.TxCallbackList
