/-
The sliding window as a map from ids to objects.

Clients see one object for every id from `begin_sn` on: writes change the
object of one id, sliding forgets the first id, and ids that have not been
given a slot yet have a fresh object.  Taking and reverting references changes
nothing in this view, whichever slots are reclaimed.
-/
import SeekDB.FixedSlidingWindow

namespace SeekDB

open FixedSlidingWindow Nat

universe u

variable {α : Type u} [Inhabited α]

/-- The slots in range hold the objects of the view, and the window keeps its
own books. -/
structure Viewed (window : FixedSlidingWindow α) (held : Nat → Nat) (view : Nat → α) : Prop where
  counts : Counts window held
  reclaimed : Reclaimed window held
  data : ∀ id, window.beginSn ≤ id → id < window.endSn → (window.slot id).data = view id
  fresh : ∀ id, window.endSn ≤ id → view id = default

omit [Inhabited α] in
theorem FixedSlidingWindow.setData_ref (window : FixedSlidingWindow α) (idx : Nat)
    (object : α) (i : Nat) :
    ((window.setData idx object).slots i).ref = (window.slots i).ref := by
  simp only [FixedSlidingWindow.setData]
  split <;> rfl

omit [Inhabited α] in
/-- An id of the window that shares its slot with `end_sn` is the oldest one. -/
theorem FixedSlidingWindow.end_eq_of_calcIdx_eq {window : FixedSlidingWindow α} {id : Nat}
    (hle : window.endSn ≤ id + window.size) (hlt : id < window.endSn)
    (hidx : window.calcIdx id = window.calcIdx window.endSn) :
    window.endSn = id + window.size := by
  rw [window.calcIdx_eq_mod, window.calcIdx_eq_mod] at hidx
  have hmod : (window.endSn - id) % window.size = 0 :=
    sub_mod_eq_zero_of_mod_eq hidx.symm
  have hge := le_of_dvd (by omega) (dvd_of_mod_eq_zero hmod)
  omega

namespace Viewed

variable {window : FixedSlidingWindow α} {held : Nat → Nat} {view : Nat → α}

theorem end_le (hview : Viewed window held view) : window.endSn ≤ window.beginSn + window.size := by
  have hinv : WindowInv ⟨window, held⟩ := ⟨hview.counts, hview.reclaimed⟩
  exact hinv.end_le

theorem end_eq (hview : Viewed window held view) (hfree : ∀ id, held id = 0) :
    window.endSn = window.beginSn + window.size := by
  rcases hview.reclaimed with hfull | ⟨first, -, hpos, -⟩
  · exact hfull
  · rw [hfree first] at hpos
    omega

theorem init {startId size : Int} (hinit : FixedSlidingWindow.init startId size = some window) :
    Viewed window (fun _ => 0) fun _ => default := by
  obtain ⟨hcounts, hreclaimed⟩ := WindowInv.start hinit
  refine ⟨hcounts, hreclaimed, ?_, fun _ _ => rfl⟩
  unfold FixedSlidingWindow.init at hinit
  split at hinit
  · simp at hinit
  · cases hinit
    intro id _ _
    rfl

theorem addRef {id : Nat} (hview : Viewed window held view)
    (hlow : window.beginSn ≤ id) (hhigh : id < window.endSn) :
    Viewed (window.addRef (window.calcIdx id) 1)
      (Function.update held id (held id + 1)) view := by
  have hend := hview.end_le
  refine ⟨hview.counts.addRef (by omega) hhigh (by omega),
    hview.reclaimed.addRef fun _ _ => by omega, ?_, hview.fresh⟩
  intro other hlow' hhigh'
  rw [← hview.data other hlow' hhigh']
  exact window.addRef_data _ _ _

theorem setData {id : Nat} (hview : Viewed window held view)
    (hlow : window.endSn ≤ id + window.size) (hhigh : id < window.endSn) (object : α) :
    Viewed (window.setData (window.calcIdx id) object) held
      (Function.update view id object) := by
  have hend := hview.end_le
  refine ⟨⟨hview.counts.begin_le_end, hview.counts.held_range, ?_⟩, hview.reclaimed, ?_, ?_⟩
  · intro other hlow' hhigh'
    rw [← hview.counts.ref_eq other hlow' hhigh']
    exact window.setData_ref _ _ _
  · intro other hlow' hhigh'
    change window.beginSn ≤ other at hlow'
    change other < window.endSn at hhigh'
    by_cases heq : other = id
    · subst heq
      simp [slot, FixedSlidingWindow.setData, calcIdx]
    have hidx : window.calcIdx other ≠ window.calcIdx id := fun h => heq
      (eq_of_calcIdx_eq (by omega) hhigh' (by omega) hhigh h)
    rw [Function.update_of_ne heq, ← hview.data other hlow' hhigh']
    have hkeep : (window.setData (window.calcIdx id) object).slots
        (window.calcIdx other) = window.slots (window.calcIdx other) := if_neg hidx
    exact congrArg WindowSlot.data hkeep
  · intro other hfresh
    change window.endSn ≤ other at hfresh
    rw [Function.update_of_ne (by omega)]
    exact hview.fresh other hfresh

/-- Handing the slot of an id behind the window to the id `end_sn`. -/
theorem data_reclaimSlot {tmpId : Nat}
    (hdata : ∀ id, window.beginSn ≤ id → id < window.endSn → (window.slot id).data = view id)
    (hfresh : ∀ id, window.endSn ≤ id → view id = default)
    (hend : window.endSn = tmpId + window.size) (hlt : tmpId < window.beginSn) :
    (∀ id, window.beginSn ≤ id → id < window.endSn + 1 →
      ((window.reclaimSlot (window.calcIdx tmpId)).slot id).data = view id) ∧
      ∀ id, window.endSn + 1 ≤ id → view id = default := by
  refine ⟨?_, fun id hle => hfresh id (by omega)⟩
  intro id hlow hhigh
  by_cases heq : id = window.endSn
  · subst heq
    have hidx : window.calcIdx window.endSn = window.calcIdx tmpId := by
      rw [hend, window.calcIdx_add_size]
    rw [hfresh window.endSn le_rfl]
    unfold slot
    rw [reclaimSlot_calcIdx, hidx]
    simp [reclaimSlot, FixedSlidingWindow.setData]
  · have hidx : window.calcIdx id ≠ window.calcIdx tmpId := by
      intro h
      have hsame := eq_of_calcIdx_eq (by omega) (by omega) (by omega)
        (by omega) h
      omega
    rw [← hdata id hlow (by omega)]
    unfold slot
    rw [reclaimSlot_calcIdx, reclaimSlot_slots_of_ne window hidx]

theorem data_reclaimLoop (fuel : Nat) {window : FixedSlidingWindow α} {tmpId : Nat}
    (hdata : ∀ id, window.beginSn ≤ id → id < window.endSn → (window.slot id).data = view id)
    (hfresh : ∀ id, window.endSn ≤ id → view id = default)
    (hle : window.endSn ≤ tmpId + window.size) (hlt : tmpId < window.endSn) :
    let out := (reclaimLoop fuel window (window.calcIdx tmpId) tmpId).1
    (∀ id, out.beginSn ≤ id → id < out.endSn → (out.slot id).data = view id) ∧
      ∀ id, out.endSn ≤ id → view id = default := by
  induction fuel generalizing window tmpId with
  | zero => exact ⟨hdata, hfresh⟩
  | succ fuel ih =>
    simp only [reclaimLoop]
    split
    · rename_i hloop
      obtain ⟨hidx, hbehind⟩ := hloop
      have hend := end_eq_of_calcIdx_eq hle hlt hidx
      split
      · obtain ⟨hdata', hfresh'⟩ := data_reclaimSlot hdata hfresh hend hbehind
        have hnextIdx : window.calcIdx (window.calcIdx tmpId + 1) =
            (window.reclaimSlot (window.calcIdx tmpId)).calcIdx (tmpId + 1) := by
          rw [reclaimSlot_calcIdx]
          simp only [window.calcIdx_eq_mod, mod_add_mod]
        rw [hnextIdx]
        refine ih hdata' hfresh' ?_ ?_
        · change window.endSn + 1 ≤ tmpId + 1 + window.size
          omega
        · change tmpId + 1 < window.endSn + 1
          omega
      · exact ⟨hdata, hfresh⟩
    · exact ⟨hdata, hfresh⟩

theorem end_le_reclaimLoop (fuel : Nat) (window : FixedSlidingWindow α) (i tmpId : Nat) :
    window.endSn ≤ (reclaimLoop fuel window i tmpId).1.endSn := by
  induction fuel generalizing window i tmpId with
  | zero => exact le_rfl
  | succ fuel ih =>
    simp only [reclaimLoop]
    split
    · split
      · exact Nat.le_trans (le_succ _) (ih (window.reclaimSlot i) _ _)
      · exact le_rfl
    · exact le_rfl

theorem revert {id : Nat} (hview : Viewed window held view) (hheld : 0 < held id) :
    Viewed (window.revert id).2.2 (Function.update held id (held id - 1)) view ∧
      (window.revert id).2.2.beginSn = window.beginSn ∧
      (window.revert id).2.2.size = window.size ∧
      window.endSn ≤ (window.revert id).2.2.endSn := by
  obtain ⟨-, hcounts, hreclaimed, -, -, hbegin, hsize⟩ :=
    revert_spec hview.counts hview.reclaimed hheld
  obtain ⟨hlow, hhigh⟩ := hview.counts.held_range id hheld
  have hdata : ∀ other, window.beginSn ≤ other → other < window.endSn →
      ((window.addRef (window.calcIdx id) (-1)).slot other).data = view other := by
    intro other hlow' hhigh'
    rw [← hview.data other hlow' hhigh']
    exact window.addRef_data _ _ _
  obtain ⟨hdata', hfresh'⟩ : (∀ other, (window.revert id).2.2.beginSn ≤ other →
      other < (window.revert id).2.2.endSn →
      ((window.revert id).2.2.slot other).data = view other) ∧
      ∀ other, (window.revert id).2.2.endSn ≤ other → view other = default := by
    unfold FixedSlidingWindow.revert
    split
    · exact ⟨hview.data, hview.fresh⟩
    split
    · exact ⟨hview.data, hview.fresh⟩
    simp only
    split
    · exact ⟨hdata, hview.fresh⟩
    split
    · exact data_reclaimLoop _ hdata hview.fresh hlow hhigh
    · exact ⟨hdata, hview.fresh⟩
  have hend : window.endSn ≤ (window.revert id).2.2.endSn := by
    unfold FixedSlidingWindow.revert
    split
    · exact le_rfl
    split
    · exact le_rfl
    simp only
    split
    · exact le_rfl
    split
    · exact end_le_reclaimLoop _ (window.addRef (window.calcIdx id) (-1)) _ _
    · exact le_rfl
  exact ⟨⟨hcounts, hreclaimed, hdata', hfresh'⟩, hbegin, hsize, hend⟩

theorem slideOne (hview : Viewed window held view) (hlt : window.beginSn < window.endSn) :
    Viewed window.slideOne.2 held view ∧ window.slideOne.2.beginSn = window.beginSn + 1 ∧
      window.slideOne.2.size = window.size ∧
      window.endSn ≤ window.slideOne.2.endSn := by
  obtain ⟨hcounts, hreclaimed, -, -, hsize⟩ :=
    slideOne_spec hview.counts hview.reclaimed hlt
  have hle := hview.end_le
  have hdata : ∀ id, window.beginSn + 1 ≤ id → id < window.endSn →
      (window.slot id).data = view id := fun id hlow => hview.data id (by omega)
  obtain ⟨hbegin, hdata', hfresh'⟩ : window.slideOne.2.beginSn = window.beginSn + 1 ∧
      (∀ id, window.slideOne.2.beginSn ≤ id → id < window.slideOne.2.endSn →
        (window.slideOne.2.slot id).data = view id) ∧
      ∀ id, window.slideOne.2.endSn ≤ id → view id = default := by
    unfold FixedSlidingWindow.slideOne
    simp only
    split_ifs with hfree
    · have hend := end_eq_of_calcIdx_eq hle hlt hfree.2.symm
      let next : FixedSlidingWindow α := { window with beginSn := window.beginSn + 1 }
      have hnext : ∀ id, next.beginSn ≤ id → id < next.endSn →
          (next.slot id).data = view id := hdata
      exact ⟨rfl, data_reclaimSlot hnext hview.fresh hend (lt_succ_self _)⟩
    · exact ⟨rfl, hdata, hview.fresh⟩
  have hend : window.endSn ≤ window.slideOne.2.endSn := by
    unfold FixedSlidingWindow.slideOne
    simp only
    split
    · exact le_succ _
    · exact le_rfl
  exact ⟨⟨hcounts, hreclaimed, hdata', hfresh'⟩, hbegin, hsize, hend⟩

end Viewed

end SeekDB
