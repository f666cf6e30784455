/-
Rules for reasoning about the sliding window through the view of its tasks.

A guard's scope is proved for a window with any number of references, from the
task that the view has for the id; what holds behind the scope must not depend
on references and reclaimed slots.
-/
import SeekDB.LogSlidingWindow
import SeekDB.WindowView

namespace SeekDB.LogSlidingWindow

open Function

/-- Taking and giving back references cannot change the property. -/
def GuardClosed (P : LogSlidingWindow → (Nat → LogTask) → Prop) : Prop :=
  ∀ (stream : LogSlidingWindow) (view : Nat → LogTask) (sw : FixedSlidingWindow LogTask),
    sw.beginSn = stream.sw.beginSn → sw.size = stream.sw.size →
    stream.sw.endSn ≤ sw.endSn → P stream view → P { stream with sw := sw } view

/-- Why there is no task for the id. -/
inductive Unavailable (stream : LogSlidingWindow) (logId : Int) : ObRet → Prop
  | invalid (hle : logId ≤ 0) : Unavailable stream logId .invalidArgument
  | slidOut (hpos : 0 < logId) (hlt : logId.toNat < stream.sw.beginSn) :
      Unavailable stream logId .errOutOfLowerBound
  | ahead (hpos : 0 < logId) (hlow : stream.sw.beginSn ≤ logId.toNat)
      (hle : stream.sw.endSn ≤ logId.toNat) : Unavailable stream logId .errOutOfUpperBound

/-- There is a task for the id. -/
structure Available (stream : LogSlidingWindow) (logId : Int) : Prop where
  pos : 0 < logId
  low : stream.sw.beginSn ≤ logId.toNat
  high : logId.toNat < stream.sw.endSn

theorem getLogTask_cases (stream : LogSlidingWindow) (logId : Int) : (Available stream logId ∧
      stream.getLogTask logId = (.success,
          { stream with sw := stream.sw.addRef (stream.sw.calcIdx logId.toNat) 1 })) ∨
    ∃ ret, Unavailable stream logId ret ∧ stream.getLogTask logId = (ret, stream) := by
  unfold getLogTask
  split_ifs with hpos
  · exact .inr ⟨_, .invalid hpos, rfl⟩
  unfold FixedSlidingWindow.get FixedSlidingWindow.checkIdInRange
  by_cases hlow : logId.toNat < stream.sw.beginSn
  · simp only [hlow, if_true]
    exact .inr ⟨_, .slidOut (by omega) hlow, rfl⟩
  by_cases hhigh : stream.sw.endSn ≤ logId.toNat
  · simp only [hlow, hhigh, if_true, if_false]
    exact .inr ⟨_, .ahead (by omega) (by omega) hhigh, rfl⟩
  · simp only [hlow, hhigh, if_false, and_true]
    exact .inl ⟨by omega, by omega, by omega⟩

section

variable {β : Type} {stream : LogSlidingWindow} {held : Nat → Nat} {view : Nat → LogTask}
  {logId : Int} {failed : ObRet → β}
  {P : LogSlidingWindow → (Nat → LogTask) → Prop}
  {Q : β → LogSlidingWindow → (Nat → LogTask) → Prop}

/-- What holds at the start of a guard's scope. -/
structure Guarded (P : LogSlidingWindow → (Nat → LogTask) → Prop) (stream : LogSlidingWindow)
    (held : Nat → Nat) (view : Nat → LogTask) (logId : Int) : Prop where
  viewed : Viewed stream.sw held view
  holds : P stream view
  available : Available stream logId
  referenced : 0 < held logId.toNat

theorem Guarded.logTask_eq (h : Guarded P stream held view logId) :
    stream.logTask logId = view logId.toNat :=
  h.viewed.data _ h.available.low h.available.high

theorem Guarded.setLogTask (h : Guarded P stream held view logId) (task : LogTask) :
    Viewed (stream.setLogTask logId task).sw held
      (Function.update view logId.toNat task) :=
  h.viewed.setData
    (Nat.le_trans h.viewed.end_le (Nat.add_le_add_right h.available.low _))
    h.available.high task

theorem Available.addRef (h : Available stream logId) (idx : Nat) (val : Int) :
    Available { stream with sw := stream.sw.addRef idx val } logId :=
  ⟨h.pos, h.low, h.high⟩

theorem viewed_revertLogTask
    (hview : Viewed stream.sw (Function.update held logId.toNat (held logId.toNat + 1)) view)
    (hQ : GuardClosed P) (hP : P stream view) :
    Viewed (stream.revertLogTask logId).sw held view ∧ P (stream.revertLogTask logId) view := by
  have hheld : 0 < Function.update held logId.toNat (held logId.toNat + 1) logId.toNat := by
    rw [update_self]
    omega
  obtain ⟨hviewed, hbegin, hsize, hend⟩ := hview.revert hheld
  refine ⟨?_, hQ stream view _ hbegin hsize hend hP⟩
  have hback : Function.update (Function.update held logId.toNat (held logId.toNat + 1))
      logId.toNat (held logId.toNat + 1 - 1) = held := by
    rw [update_idem, Nat.add_sub_cancel, update_eq_self]
  rw [update_self, hback] at hviewed
  exact hviewed

theorem withLogTaskWait_rule {body : LogSlidingWindow → Option (β × LogSlidingWindow)}
    {out : β × LogSlidingWindow} (hP : GuardClosed P) (hQ : ∀ out, GuardClosed (Q out))
    (hview : Viewed stream.sw held view) (hpre : P stream view)
    (hfailed : ∀ ret, Unavailable stream logId ret → Q (failed ret) stream view)
    (hbody : ∀ state held' out', Guarded P state held' view logId → body state = some out' →
      ∃ view', Viewed out'.2.sw held' view' ∧ Q out'.1 out'.2 view')
    (hout : stream.withLogTaskWait logId failed body = some out) :
    ∃ view', Viewed out.2.sw held view' ∧ Q out.1 out.2 view' := by
  unfold withLogTaskWait at hout
  rcases getLogTask_cases stream logId with ⟨havailable, hget⟩ | ⟨ret, hret, hget⟩
  · rw [hget] at hout
    have hguard : Guarded P { stream with
        sw := stream.sw.addRef (stream.sw.calcIdx logId.toNat) 1 }
        (Function.update held logId.toNat (held logId.toNat + 1)) view logId :=
      ⟨hview.addRef havailable.low havailable.high,
        hP stream view _ rfl rfl le_rfl hpre, havailable.addRef _ _,
        by rw [update_self]; omega⟩
    obtain ⟨inner, hinner, rfl⟩ := Option.map_eq_some_iff.mp hout
    obtain ⟨view', hview', hpost⟩ := hbody _ _ _ hguard hinner
    exact ⟨view', viewed_revertLogTask hview' (hQ _) hpost⟩
  rw [hget] at hout
  have hne : ret ≠ .success := by cases hret <;> decide
  refine ⟨view, ?_⟩
  split at hout
  · rename_i heq
    exact absurd (Prod.mk.inj heq).1 hne
  rename_i heq
  cases heq
  cases hout
  exact ⟨hview, hfailed ret hret⟩

theorem withLogTaskWait_some (body : LogSlidingWindow → β × LogSlidingWindow) :
    stream.withLogTaskWait logId failed (fun state => some (body state)) =
      some (stream.withLogTask logId failed body) := by
  unfold withLogTaskWait withLogTask
  split <;> rfl

theorem withLogTask_rule {body : LogSlidingWindow → β × LogSlidingWindow} (hP : GuardClosed P)
    (hQ : ∀ out, GuardClosed (Q out)) (hview : Viewed stream.sw held view) (hpre : P stream view)
    (hfailed : ∀ ret, Unavailable stream logId ret → Q (failed ret) stream view)
    (hbody : ∀ state held', Guarded P state held' view logId →
      ∃ view', Viewed (body state).2.sw held' view' ∧ Q (body state).1 (body state).2 view') :
    ∃ view', Viewed (stream.withLogTask logId failed body).2.sw held view' ∧
      Q (stream.withLogTask logId failed body).1 (stream.withLogTask logId failed body).2
        view' := by
  refine withLogTaskWait_rule hP hQ hview hpre hfailed ?_ (withLogTaskWait_some body)
  intro state held' out hguard hout
  cases hout
  exact hbody state held' hguard

end

end SeekDB.LogSlidingWindow
