/-
The fixed sliding window of log tasks (fixed_sliding_window.h).

Ids from `begin_sn` up to `end_sn` may be fetched.  Slots are shared by all ids
that agree modulo the size, and a slot is handed to its next id, by moving
`end_sn`, only after it has been slid out and its last reference reverted.
Every operation is one step; the locks and the second check of `get` guard
against interleavings inside an operation.
-/
import SeekDB.PalfDefine
import SeekDB.Execution
import SeekDB.RingCells

namespace SeekDB

open Nat Function

universe u

/-- `FixedSlidingWindowSlot`: the reference count and the slot's object. -/
structure WindowSlot (α : Type u) where
  ref : Int
  data : α

/-- A window that has been initialised. -/
structure FixedSlidingWindow (α : Type u) where
  beginSn : Nat
  endSn : Nat
  size : Nat
  slots : Nat → WindowSlot α
  size_pos : 1 < size
  size_pow : ∃ k, size = 2 ^ k

namespace FixedSlidingWindow

variable {α : Type u} [Inhabited α]

/-- `init`; `none` is `OB_INVALID_ARGUMENT`. -/
def init (startId size : Int) : Option (FixedSlidingWindow α) :=
  if h : startId < 0 ∨ size ≤ 1 ∨ size.toNat &&& (size.toNat - 1) ≠ 0 then none
  else some
    { beginSn := startId.toNat
      endSn := startId.toNat + size.toNat
      size := size.toNat
      slots := fun _ => { ref := 0, data := default }
      size_pos := by omega
      size_pow := RingCells.exists_pow_of_and_pred (by omega) (by
        simp only [not_or, not_not] at h
        exact h.2.2) }

theorem init_eq {startId size : Int} {window : FixedSlidingWindow α}
    (h : init startId size = some window) :
    0 ≤ startId ∧ (window.beginSn : Int) = startId ∧ window.size = size.toNat := by
  unfold init at h
  split at h
  · simp at h
  · cases h
    exact ⟨by omega, by simp only; omega, rfl⟩

def calcIdx (window : FixedSlidingWindow α) (logId : Nat) : Nat :=
  logId &&& (window.size - 1)

def slot (window : FixedSlidingWindow α) (logId : Nat) : WindowSlot α :=
  window.slots (window.calcIdx logId)

def checkIdInRange (window : FixedSlidingWindow α) (id : Nat) : ObRet :=
  if id < window.beginSn then .errOutOfLowerBound
  else if window.endSn ≤ id then .errOutOfUpperBound
  else .success

/-- Add to a reference count. -/
def addRef (window : FixedSlidingWindow α) (idx : Nat) (val : Int) :
    FixedSlidingWindow α :=
  { window with
    slots := fun i =>
      if i = idx then
        { window.slots i with ref := (window.slots i).ref + val }
      else window.slots i }

/-- Change the object of a slot; the reference count stays. -/
def setData (window : FixedSlidingWindow α) (idx : Nat) (data : α) :
    FixedSlidingWindow α :=
  { window with
    slots := fun i =>
      if i = idx then { window.slots i with data := data } else window.slots i }

/-- Reset the object of a slot and give the slot to the id `end_sn`. -/
def reclaimSlot (window : FixedSlidingWindow α) (idx : Nat) :
    FixedSlidingWindow α :=
  { window.setData idx default with endSn := window.endSn + 1 }

/-- `get`, with the index of the slot it returns. -/
def get (window : FixedSlidingWindow α) (gId : Nat) :
    ObRet × Option Nat × FixedSlidingWindow α :=
  match window.checkIdInRange gId with
  | .success =>
    (.success, some (window.calcIdx gId), window.addRef (window.calcIdx gId) 1)
  | ret => (ret, none, window)

/-- The loop of `revert_`, with the indices of the slots it has reset.  It ends
when `tmp_id` reaches `begin_sn`, so that `begin_sn - tmp_id` rounds suffice. -/
def reclaimLoop : Nat → FixedSlidingWindow α → Nat → Nat →
    FixedSlidingWindow α × List Nat
  | 0, window, _, _ => (window, [])
  | fuel + 1, window, i, tmpId =>
    if i = window.calcIdx window.endSn ∧ tmpId < window.beginSn then
      if (window.slots i).ref = 0 then
        let out := reclaimLoop fuel (window.reclaimSlot i)
          (window.calcIdx (i + 1)) (tmpId + 1)
        (out.1, i :: out.2)
      else (window, [])
    else (window, [])

/-- `revert`, with the indices of the slots it has reset. -/
def revert (window : FixedSlidingWindow α) (rId : Nat) :
    ObRet × List Nat × FixedSlidingWindow α :=
  if rId + window.size < window.beginSn then (.errUnexpected, [], window)
  else if window.endSn ≤ rId then (.errUnexpected, [], window)
  else
    let idx := window.calcIdx rId
    let next := window.addRef idx (-1)
    if (next.slots idx).ref < 0 then (.errUnexpected, [], next)
    else if (next.slots idx).ref = 0 then
      let out := reclaimLoop (next.beginSn - rId) next idx rId
      (.success, out.2, out.1)
    else (.success, [], next)

/-- What `SlidingCond` answers for the first log: whether it can be slid and
its callback succeeded, and otherwise what `slide` returns. -/
inductive SlidingCond
  | accept
  | refuse (ret : ObRet)
  deriving Repr, DecidableEq

/-- Slide the first log out, with the indices of the slots reset. -/
def slideOne (window : FixedSlidingWindow α) : List Nat × FixedSlidingWindow α :=
  let idx := window.calcIdx window.beginSn
  let next := { window with beginSn := window.beginSn + 1 }
  if (next.slots idx).ref = 0 ∧ next.calcIdx next.endSn = idx then
    ([idx], next.reclaimSlot idx)
  else ([], next)

/-- `slide`: one answer of the condition for each round before the timeout. -/
def slide (window : FixedSlidingWindow α) :
    List SlidingCond → ObRet × List Nat × FixedSlidingWindow α
  | [] => (.success, [], window)
  | cond :: rest =>
    if window.endSn ≤ window.beginSn then slide window rest
    else
      match cond with
      | .refuse ret => (ret, [], window)
      | .accept =>
        let out := slide window.slideOne.2 rest
        (out.1, window.slideOne.1 ++ out.2.1, out.2.2)

variable (window : FixedSlidingWindow α)

omit [Inhabited α] in
theorem calcIdx_eq_mod (logId : Nat) : window.calcIdx logId = logId % window.size :=
  RingCells.and_pred_eq_mod window.size_pow logId

omit [Inhabited α] in
@[simp]
theorem addRef_calcIdx (idx : Nat) (val : Int) (logId : Nat) :
    (window.addRef idx val).calcIdx logId = window.calcIdx logId :=
  rfl

@[simp]
theorem reclaimSlot_calcIdx (idx logId : Nat) :
    (window.reclaimSlot idx).calcIdx logId = window.calcIdx logId :=
  rfl

@[simp]
theorem reclaimSlot_ref (idx i : Nat) :
    ((window.reclaimSlot idx).slots i).ref = (window.slots i).ref := by
  simp only [reclaimSlot, setData]
  split <;> rfl

theorem reclaimSlot_slots_of_ne {idx i : Nat} (h : i ≠ idx) :
    (window.reclaimSlot idx).slots i = window.slots i := by
  simp [reclaimSlot, setData, h]

omit [Inhabited α] in
theorem addRef_data (idx : Nat) (val : Int) (i : Nat) :
    ((window.addRef idx val).slots i).data = (window.slots i).data := by
  simp only [addRef]
  split <;> rfl

omit [Inhabited α] in
theorem calcIdx_add_size (logId : Nat) :
    window.calcIdx (logId + window.size) = window.calcIdx logId := by
  rw [calcIdx_eq_mod, calcIdx_eq_mod, add_mod_right]

end FixedSlidingWindow

/-! Clients of the window. -/

/-- A window together with the references its clients hold, by id. -/
structure HeldWindow (α : Type u) where
  window : FixedSlidingWindow α
  held : Nat → Nat

/-- One operation with what it returned and the slots it has reset. -/
inductive WindowEvent (α : Type u)
  | get (gId : Nat) (ret : ObRet) (idx : Option Nat)
  | revert (rId : Nat) (ret : ObRet) (resets : List Nat)
  | slide (conds : List FixedSlidingWindow.SlidingCond) (ret : ObRet)
      (resets : List Nat)
  | write (id : Nat) (data : α)

def WindowEvent.resets {α : Type u} : WindowEvent α → List Nat
  | .get _ _ _ => []
  | .revert _ _ resets => resets
  | .slide _ _ resets => resets
  | .write _ _ => []

section

variable {α : Type u} [Inhabited α] {window : FixedSlidingWindow α}

/-- Any `get`, one `revert` for each successful `get`, any `slide`, and writes
of a client into a slot it holds. -/
inductive WindowStep : HeldWindow α → WindowEvent α → HeldWindow α → Prop
  | get (state : HeldWindow α) (gId : Nat)
      (hret : (state.window.get gId).1 = .success) :
      WindowStep state (.get gId .success (state.window.get gId).2.1)
        { window := (state.window.get gId).2.2
          held := Function.update state.held gId (state.held gId + 1) }
  | getFailed (state : HeldWindow α) (gId : Nat)
      (hret : (state.window.get gId).1 ≠ .success) :
      WindowStep state
        (.get gId (state.window.get gId).1 (state.window.get gId).2.1)
        { state with window := (state.window.get gId).2.2 }
  | revert (state : HeldWindow α) (rId : Nat) (hheld : 0 < state.held rId) :
      WindowStep state
        (.revert rId (state.window.revert rId).1 (state.window.revert rId).2.1)
        { window := (state.window.revert rId).2.2
          held := Function.update state.held rId (state.held rId - 1) }
  | slide (state : HeldWindow α) (conds : List FixedSlidingWindow.SlidingCond) :
      WindowStep state
        (.slide conds (state.window.slide conds).1 (state.window.slide conds).2.1)
        { state with window := (state.window.slide conds).2.2 }
  | write (state : HeldWindow α) (id : Nat) (data : α)
      (hheld : 0 < state.held id) :
      WindowStep state (.write id data)
        { state with
          window := state.window.setData (state.window.calcIdx id) data }

/-- The slots of the ids from `end_sn - size` up to `end_sn` count exactly the
references to these ids, and no other id is referenced. -/
structure Counts (window : FixedSlidingWindow α) (held : Nat → Nat) : Prop where
  begin_le_end : window.beginSn ≤ window.endSn
  held_range : ∀ id, 0 < held id → window.endSn ≤ id + window.size ∧ id < window.endSn
  ref_eq : ∀ id, window.endSn ≤ id + window.size → id < window.endSn →
    (window.slot id).ref = held id

/-- `end_sn` is as far ahead as the references allow. -/
def Reclaimed (window : FixedSlidingWindow α) (held : Nat → Nat) : Prop :=
  window.endSn = window.beginSn + window.size ∨
    ∃ id, id < window.beginSn ∧ 0 < held id ∧ window.endSn = id + window.size

/-- No slot of a held id is among the reset ones. -/
def Spares (window : FixedSlidingWindow α) (held : Nat → Nat) (resets : List Nat) : Prop :=
  ∀ idx ∈ resets, ∀ id, 0 < held id → window.calcIdx id ≠ idx

/-- Objects of held ids stay as they are. -/
def KeepsData (window next : FixedSlidingWindow α) (held : Nat → Nat) : Prop :=
  ∀ id, 0 < held id → (next.slot id).data = (window.slot id).data

omit [Inhabited α] in
theorem FixedSlidingWindow.eq_of_calcIdx_eq
    {a b : Nat} (ha : window.endSn ≤ a + window.size) (ha' : a < window.endSn)
    (hb : window.endSn ≤ b + window.size) (hb' : b < window.endSn)
    (h : window.calcIdx a = window.calcIdx b) : a = b := by
  rw [window.calcIdx_eq_mod, window.calcIdx_eq_mod] at h
  exact RingCells.eq_of_mod_eq (l := window.endSn - window.size) (by omega) (by omega)
    (by omega) (by omega) h

section

variable {held : Nat → Nat}

omit [Inhabited α] in
theorem Counts.held_eq_zero {id : Nat} (hcounts : Counts window held) (h : window.endSn ≤ id) :
    held id = 0 := by
  by_contra hne
  have hrange := hcounts.held_range id (Nat.pos_of_ne_zero hne)
  omega

omit [Inhabited α] in
theorem Counts.addRef {id count : Nat} {val : Int} (hcounts : Counts window held)
    (hlow : window.endSn ≤ id + window.size) (hhigh : id < window.endSn)
    (hval : (held id : Int) + val = count) :
    Counts (window.addRef (window.calcIdx id) val)
      (Function.update held id count) := by
  constructor
  · exact hcounts.begin_le_end
  · intro other hpos
    by_cases heq : other = id
    · subst heq
      exact ⟨hlow, hhigh⟩
    · rw [update_of_ne heq] at hpos
      exact hcounts.held_range other hpos
  · intro other hlow' hhigh'
    have hold := hcounts.ref_eq other hlow' hhigh'
    unfold FixedSlidingWindow.slot at hold ⊢
    rw [FixedSlidingWindow.addRef_calcIdx]
    simp only [FixedSlidingWindow.addRef]
    by_cases heq : other = id
    · subst heq
      rw [if_pos rfl, update_self, hold, hval]
    have hne : window.calcIdx other ≠ window.calcIdx id := fun hidx =>
      heq (FixedSlidingWindow.eq_of_calcIdx_eq hlow' hhigh' hlow hhigh hidx)
    rw [if_neg hne, update_of_ne heq]
    exact hold

/-- Giving the slot of the oldest id, which nobody holds, to the id `end_sn`. -/
theorem Counts.reclaimSlot {id : Nat} (hcounts : Counts window held)
    (hend : window.endSn = id + window.size) (hfree : held id = 0) :
    Counts (window.reclaimSlot (window.calcIdx id)) held := by
  constructor
  · have hle := hcounts.begin_le_end
    change window.beginSn ≤ window.endSn + 1
    omega
  · intro other hpos
    have hrange := hcounts.held_range other hpos
    have hne : other ≠ id := by
      rintro rfl
      omega
    change window.endSn + 1 ≤ other + window.size ∧ other < window.endSn + 1
    omega
  · intro other hlow hhigh
    change window.endSn + 1 ≤ other + window.size at hlow
    change other < window.endSn + 1 at hhigh
    unfold FixedSlidingWindow.slot
    rw [FixedSlidingWindow.reclaimSlot_calcIdx, FixedSlidingWindow.reclaimSlot_ref]
    by_cases heq : other = window.endSn
    · -- the slot comes from `id`, whose count is zero
      subst heq
      have hzero := hcounts.held_eq_zero (Nat.le_refl window.endSn)
      have hold := hcounts.ref_eq id (by omega) (by omega)
      unfold FixedSlidingWindow.slot at hold
      rw [hzero, hend, window.calcIdx_add_size, hold, hfree]
    · exact hcounts.ref_eq other (by omega) (by omega)

omit [Inhabited α] in
theorem Counts.spares_reclaimSlot {id : Nat} (hcounts : Counts window held)
    (hend : window.endSn = id + window.size) (hfree : held id = 0) :
    Spares window held [window.calcIdx id] := by
  intro idx hmem other hpos hidx
  rw [List.mem_singleton.mp hmem] at hidx
  have hrange := hcounts.held_range other hpos
  have heq := FixedSlidingWindow.eq_of_calcIdx_eq hrange.1 hrange.2
    (by omega) (by omega) hidx
  subst heq
  omega

theorem keepsData_reclaimSlot {idx : Nat} (hspares : Spares window held [idx]) :
    KeepsData window (window.reclaimSlot idx) held := by
  intro id hpos
  have hne := hspares idx (List.mem_singleton.mpr rfl) id hpos
  unfold FixedSlidingWindow.slot
  rw [FixedSlidingWindow.reclaimSlot_calcIdx, FixedSlidingWindow.reclaimSlot_slots_of_ne window hne]

/-- What the loop of `revert_` does from an oldest id `tmpId`. -/
theorem reclaimLoop_spec (fuel : Nat) {tmpId : Nat}
    (hcounts : Counts window held) (hend : window.endSn = tmpId + window.size)
    (hle : tmpId ≤ window.beginSn) (hfuel : window.beginSn - tmpId ≤ fuel) :
    let out := FixedSlidingWindow.reclaimLoop fuel window
      (window.calcIdx tmpId) tmpId
    Counts out.1 held ∧ Reclaimed out.1 held ∧ Spares window held out.2 ∧
      KeepsData window out.1 held ∧ out.1.beginSn = window.beginSn ∧
      out.1.size = window.size := by
  induction fuel generalizing window tmpId with
  | zero =>
    refine ⟨hcounts, .inl ?_, by simp [Spares, FixedSlidingWindow.reclaimLoop],
      fun _ _ => rfl, rfl, rfl⟩
    change window.endSn = window.beginSn + window.size
    omega
  | succ fuel ih =>
    have hsize := window.size_pos
    have hidx : window.calcIdx tmpId = window.calcIdx window.endSn := by
      rw [hend, window.calcIdx_add_size]
    simp only [FixedSlidingWindow.reclaimLoop]
    by_cases hlt : tmpId < window.beginSn
    · rw [if_pos ⟨hidx, hlt⟩]
      have href := hcounts.ref_eq tmpId (by omega) (by omega)
      unfold FixedSlidingWindow.slot at href
      split_ifs with hzero
      · have hfree : held tmpId = 0 := by omega
        have hspares := hcounts.spares_reclaimSlot hend hfree
        have hnextIdx : window.calcIdx (window.calcIdx tmpId + 1) = window.calcIdx (tmpId + 1) := by
          simp only [window.calcIdx_eq_mod, mod_add_mod]
        have hnextEnd : (window.reclaimSlot (window.calcIdx tmpId)).endSn =
            tmpId + 1 + (window.reclaimSlot (window.calcIdx tmpId)).size := by
          change window.endSn + 1 = tmpId + 1 + window.size
          omega
        obtain ⟨h₁, h₂, h₃, h₄, h₅, h₆⟩ := ih
          (hcounts.reclaimSlot hend hfree) hnextEnd
          (by change tmpId + 1 ≤ window.beginSn; omega)
          (by change window.beginSn - (tmpId + 1) ≤ fuel; omega)
        rw [FixedSlidingWindow.reclaimSlot_calcIdx] at h₁ h₂ h₃ h₄ h₅ h₆
        rw [hnextIdx]
        refine ⟨h₁, h₂, ?_, ?_, h₅, h₆⟩
        · intro idx hmem id hpos
          rcases List.mem_cons.mp hmem with rfl | hmem
          · exact hspares _ (List.mem_singleton.mpr rfl) id hpos
          · exact h₃ idx hmem id hpos
        · intro id hpos
          rw [h₄ id hpos, keepsData_reclaimSlot hspares id hpos]
      · refine ⟨hcounts, .inr ⟨tmpId, hlt, by omega, hend⟩, by simp [Spares],
          fun _ _ => rfl, rfl, rfl⟩
    · rw [if_neg (fun hand => hlt hand.2)]
      refine ⟨hcounts, .inl ?_, by simp [Spares], fun _ _ => rfl, rfl, rfl⟩
      change window.endSn = window.beginSn + window.size
      omega

omit [Inhabited α] in
/-- References to other ids keep `end_sn` where it is. -/
theorem Reclaimed.addRef {id count : Nat} {val : Int} (hreclaimed : Reclaimed window held)
    (hkeep : window.endSn = id + window.size → id < window.beginSn → 0 < count) :
    Reclaimed (window.addRef (window.calcIdx id) val)
      (Function.update held id count) := by
  rcases hreclaimed with hfull | ⟨first, hlt, hpos, hend⟩
  · exact .inl hfull
  refine .inr ⟨first, hlt, ?_, hend⟩
  by_cases heq : first = id
  · subst heq
    rw [update_self]
    exact hkeep hend hlt
  · rw [update_of_ne heq]
    exact hpos

/-- `revert` of a held reference succeeds and reclaims what it can. -/
theorem revert_spec {rId : Nat} (hcounts : Counts window held)
    (hreclaimed : Reclaimed window held) (hheld : 0 < held rId) :
    let held' := Function.update held rId (held rId - 1)
    (window.revert rId).1 = .success ∧ Counts (window.revert rId).2.2 held' ∧
      Reclaimed (window.revert rId).2.2 held' ∧
      Spares window held' (window.revert rId).2.1 ∧
      KeepsData window (window.revert rId).2.2 held' ∧
      (window.revert rId).2.2.beginSn = window.beginSn ∧
      (window.revert rId).2.2.size = window.size := by
  intro held'
  obtain ⟨hlow, hhigh⟩ := hcounts.held_range rId hheld
  have hle := hcounts.begin_le_end
  have hnext : Counts (window.addRef (window.calcIdx rId) (-1)) held' :=
    hcounts.addRef hlow hhigh (by omega)
  have hself : held' rId = held rId - 1 := update_self ..
  have href := hnext.ref_eq rId hlow hhigh
  unfold FixedSlidingWindow.slot at href
  rw [FixedSlidingWindow.addRef_calcIdx, hself] at href
  have hdata : KeepsData window (window.addRef (window.calcIdx rId) (-1)) held' :=
    fun id _ => window.addRef_data _ _ _
  unfold FixedSlidingWindow.revert
  rw [if_neg (by omega), if_neg (by omega)]
  rw [if_neg (by omega)]
  split_ifs with hlast
  · simp only [true_and]
    by_cases hend : window.endSn = rId + window.size
    · have hbegin : rId ≤ window.beginSn := by
        rcases hreclaimed with hfull | ⟨first, hlt, -, hfirst⟩ <;> omega
      obtain ⟨h₁, h₂, h₃, h₄, h₅, h₆⟩ :=
        reclaimLoop_spec (window.beginSn - rId) hnext hend hbegin le_rfl
      refine ⟨h₁, h₂, h₃, ?_, h₅, h₆⟩
      intro id hpos
      exact (h₄ id hpos).trans (hdata id hpos)
    -- the slot is not the next one to be reclaimed, so the loop does nothing
    have hidx : window.calcIdx rId ≠ window.calcIdx window.endSn := by
      intro hidx
      have hback : window.calcIdx window.endSn = window.calcIdx (window.endSn - window.size) := by
        rw [← window.calcIdx_add_size (window.endSn - window.size)]
        congr 1
        rcases hreclaimed with hfull | ⟨first, -, -, hfirst⟩ <;> omega
      rw [hback] at hidx
      have heq := FixedSlidingWindow.eq_of_calcIdx_eq hlow hhigh
        (by omega) (by rcases hreclaimed with h | ⟨_, _, _, h⟩ <;> omega) hidx
      rcases hreclaimed with hfull | ⟨first, -, -, hfirst⟩ <;> omega
    have hloop : ∀ fuel, FixedSlidingWindow.reclaimLoop fuel
        (window.addRef (window.calcIdx rId) (-1)) (window.calcIdx rId) rId =
        (window.addRef (window.calcIdx rId) (-1), []) := by
      intro fuel
      cases fuel with
      | zero => rfl
      | succ =>
        rw [FixedSlidingWindow.reclaimLoop, if_neg (fun hand => hidx hand.1)]
    rw [hloop]
    refine ⟨hnext, ?_, by simp [Spares], hdata, rfl, rfl⟩
    exact hreclaimed.addRef (fun hend' _ => absurd hend' hend)
  · refine ⟨rfl, hnext, ?_, by simp [Spares], hdata, rfl, rfl⟩
    exact hreclaimed.addRef (fun _ _ => by omega)

theorem slideOne_spec (hcounts : Counts window held)
    (hreclaimed : Reclaimed window held) (hlt : window.beginSn < window.endSn) :
    Counts window.slideOne.2 held ∧ Reclaimed window.slideOne.2 held ∧
      Spares window held window.slideOne.1 ∧
      KeepsData window window.slideOne.2 held ∧
      window.slideOne.2.size = window.size := by
  let next : FixedSlidingWindow α :=
    { window with beginSn := window.beginSn + 1 }
  have hnext : Counts next held :=
    ⟨by change window.beginSn + 1 ≤ window.endSn; omega, hcounts.held_range,
      hcounts.ref_eq⟩
  have hupper : window.endSn ≤ window.beginSn + window.size := by
    rcases hreclaimed with hfull | ⟨first, hfirst, -, hend⟩ <;> omega
  have href := hcounts.ref_eq window.beginSn hupper hlt
  unfold FixedSlidingWindow.slot at href
  unfold FixedSlidingWindow.slideOne
  simp only
  split
  · rename_i hfree
    obtain ⟨hzero, hidx⟩ := hfree
    have hheld : held window.beginSn = 0 := by omega
    have hend : window.endSn = window.beginSn + window.size := by
      rcases hreclaimed with hfull | ⟨first, hfirst, hpos, hend⟩
      · exact hfull
      change window.calcIdx window.endSn = window.calcIdx window.beginSn at hidx
      rw [hend, window.calcIdx_add_size] at hidx
      have heq := FixedSlidingWindow.eq_of_calcIdx_eq (by omega) (by omega)
        hupper hlt hidx
      omega
    have hspares := hcounts.spares_reclaimSlot hend hheld
    refine ⟨hnext.reclaimSlot hend hheld, .inl ?_, hspares, keepsData_reclaimSlot hspares, rfl⟩
    change window.endSn + 1 = window.beginSn + 1 + window.size
    omega
  · rename_i hbusy
    refine ⟨hnext, ?_, by simp [Spares], fun _ _ => rfl, rfl⟩
    rcases hreclaimed with hfull | ⟨first, hfirst, hpos, hend⟩
    · refine .inr ⟨window.beginSn, lt_succ_self _, ?_, hfull⟩
      have hidx : window.calcIdx window.endSn = window.calcIdx window.beginSn := by
        rw [hfull, window.calcIdx_add_size]
      by_contra hnot
      exact hbusy ⟨by omega, hidx⟩
    · exact .inr ⟨first, lt_succ_of_lt hfirst, hpos, hend⟩

theorem slide_spec (conds : List FixedSlidingWindow.SlidingCond)
    (hcounts : Counts window held) (hreclaimed : Reclaimed window held) :
    Counts (window.slide conds).2.2 held ∧ Reclaimed (window.slide conds).2.2 held ∧
      Spares window held (window.slide conds).2.1 ∧
      KeepsData window (window.slide conds).2.2 held ∧
      (window.slide conds).2.2.size = window.size := by
  induction conds generalizing window with
  | nil => exact ⟨hcounts, hreclaimed, by simp [Spares, FixedSlidingWindow.slide],
      fun _ _ => rfl, rfl⟩
  | cons cond rest ih =>
    unfold FixedSlidingWindow.slide
    split_ifs with hempty
    · exact ih hcounts hreclaimed
    cases cond with
    | refuse =>
      exact ⟨hcounts, hreclaimed, by simp [Spares], fun _ _ => rfl, rfl⟩
    | accept =>
      obtain ⟨h₁, h₂, h₃, h₄, h₅⟩ :=
        slideOne_spec hcounts hreclaimed (by omega)
      obtain ⟨k₁, k₂, k₃, k₄, k₅⟩ := ih h₁ h₂
      refine ⟨k₁, k₂, ?_, ?_, k₅.trans h₅⟩
      · intro idx hmem id hpos
        rcases List.mem_append.mp hmem with hmem | hmem
        · exact h₃ idx hmem id hpos
        have hne := k₃ idx hmem id hpos
        rw [FixedSlidingWindow.calcIdx_eq_mod, h₅] at hne
        rw [FixedSlidingWindow.calcIdx_eq_mod]
        exact hne
      · intro id hpos
        exact (k₄ id hpos).trans (h₄ id hpos)

end

/-- The invariant of a window and its clients. -/
def WindowInv (state : HeldWindow α) : Prop :=
  Counts state.window state.held ∧ Reclaimed state.window state.held

/-- What one step may do to the slots of held ids. -/
structure StepSafe (state : HeldWindow α) (event : WindowEvent α) (next : HeldWindow α) : Prop where
  spares_held : Spares next.window next.held event.resets
  get_exclusive : ∀ gId idx, event = .get gId .success (some idx) → idx = state.window.calcIdx gId ∧
      ∀ id, 0 < state.held id → state.window.calcIdx id = idx → id = gId
  revert_succeeds : ∀ rId ret resets, event = .revert rId ret resets → ret = .success
  keeps_data : (∀ id data, event ≠ .write id data) → KeepsData state.window next.window next.held

omit [Inhabited α] in
theorem get_eq_of_success {gId : Nat}
    (h : (window.get gId).1 = .success) :
    window.beginSn ≤ gId ∧ gId < window.endSn ∧
      window.get gId = (.success, some (window.calcIdx gId),
        window.addRef (window.calcIdx gId) 1) := by
  unfold FixedSlidingWindow.get FixedSlidingWindow.checkIdInRange at h ⊢
  by_cases hlow : gId < window.beginSn
  · simp [hlow] at h
  by_cases hhigh : window.endSn ≤ gId
  · simp [hlow, hhigh] at h
  · simp only [hlow, hhigh, if_false, and_true]
    omega

omit [Inhabited α] in
theorem get_window_of_failure {gId : Nat}
    (h : (window.get gId).1 ≠ .success) : (window.get gId).2.2 = window := by
  unfold FixedSlidingWindow.get at h ⊢
  split
  · rename_i heq
    simp [heq] at h
  · rfl

omit [Inhabited α] in
theorem WindowInv.end_le {state : HeldWindow α} (hinv : WindowInv state) :
    state.window.endSn ≤ state.window.beginSn + state.window.size := by
  rcases hinv.2 with hfull | ⟨first, hlt, -, hend⟩ <;> omega

theorem WindowInv.step {state next : HeldWindow α} {event : WindowEvent α}
    (hinv : WindowInv state) (hstep : WindowStep state event next) :
    WindowInv next ∧ StepSafe state event next := by
  obtain ⟨hcounts, hreclaimed⟩ := hinv
  have hend := WindowInv.end_le ⟨hcounts, hreclaimed⟩
  cases hstep with
  | get gId hret =>
    obtain ⟨hbegin, hlt, heq⟩ := get_eq_of_success hret
    have hlow : state.window.endSn ≤ gId + state.window.size := by omega
    rw [heq]
    refine ⟨⟨?_, ?_⟩, ⟨by simp [Spares, WindowEvent.resets], ?_, by simp, ?_⟩⟩
    · exact hcounts.addRef hlow hlt (by omega)
    · exact hreclaimed.addRef (fun _ _ => succ_pos _)
    · intro gId' idx hevent
      injection hevent with hid _ hidx
      subst hid
      rw [Option.some.injEq] at hidx
      refine ⟨hidx.symm, fun id hpos hsame => ?_⟩
      rw [← hidx] at hsame
      obtain ⟨hlow', hlt'⟩ := hcounts.held_range id hpos
      exact FixedSlidingWindow.eq_of_calcIdx_eq hlow' hlt' hlow hlt hsame
    · exact fun _ id _ => state.window.addRef_data _ _ _
  | getFailed gId hret =>
    rw [get_window_of_failure hret]
    refine ⟨⟨hcounts, hreclaimed⟩,
      ⟨by simp [Spares, WindowEvent.resets], ?_, by simp, fun _ _ _ => rfl⟩⟩
    intro gId' idx hevent
    injection hevent with _ hcode _
    exact absurd hcode hret
  | revert rId hheld =>
    obtain ⟨h₁, h₂, h₃, h₄, h₅, -, h₆⟩ := revert_spec hcounts hreclaimed hheld
    refine ⟨⟨h₂, h₃⟩, ⟨?_, by simp, ?_, fun _ => h₅⟩⟩
    · intro idx hmem id hpos
      have hne := h₄ idx hmem id hpos
      rw [FixedSlidingWindow.calcIdx_eq_mod] at hne ⊢
      rw [h₆]
      exact hne
    · intro rId' ret resets hevent
      injection hevent with _ hcode _
      rw [← hcode]
      exact h₁
  | slide conds =>
    obtain ⟨h₁, h₂, h₃, h₄, h₅⟩ := slide_spec conds hcounts hreclaimed
    refine ⟨⟨h₁, h₂⟩, ⟨?_, by simp, by simp, fun _ => h₄⟩⟩
    intro idx hmem id hpos
    have hne := h₃ idx hmem id hpos
    rw [FixedSlidingWindow.calcIdx_eq_mod] at hne ⊢
    rw [h₅]
    exact hne
  | write =>
    refine ⟨⟨⟨hcounts.begin_le_end, hcounts.held_range, ?_⟩, hreclaimed⟩,
      ⟨by simp [Spares, WindowEvent.resets], by simp, by simp, by simp⟩⟩
    intro other hlow hhigh
    have hold := hcounts.ref_eq other hlow hhigh
    unfold FixedSlidingWindow.slot at hold ⊢
    simp only [FixedSlidingWindow.setData]
    split <;> exact hold

theorem WindowInv.start {startId size : Int}
    (hinit : FixedSlidingWindow.init startId size = some window) :
    WindowInv ⟨window, fun _ => 0⟩ := by
  unfold FixedSlidingWindow.init at hinit
  split at hinit
  · simp at hinit
  · simp only [Option.some.injEq] at hinit
    subst hinit
    refine ⟨⟨Nat.le_add_right _ _, by simp, fun _ _ _ => rfl⟩, .inl rfl⟩

/-- The state of a window in use. -/
structure WindowSound (state : HeldWindow α) : Prop where
  begin_le_end : state.window.beginSn ≤ state.window.endSn
  end_le : state.window.endSn ≤ state.window.beginSn + state.window.size
  end_eq : (∃ first, IsLeast { id | id < state.window.beginSn ∧ 0 < state.held id } first ∧
        state.window.endSn = state.window.size + first) ∨
      (∀ id, id < state.window.beginSn → state.held id = 0) ∧
        state.window.endSn = state.window.beginSn + state.window.size
  full_again : (∀ id, id < state.window.beginSn → state.held id = 0) →
    state.window.endSn = state.window.beginSn + state.window.size
  steps_safe : ∀ event next, WindowStep state event next → StepSafe state event next

theorem WindowInv.sound {state : HeldWindow α} (hinv : WindowInv state) : WindowSound state := by
  constructor
  · exact hinv.1.begin_le_end
  · exact hinv.end_le
  · rcases hinv.2 with hfull | ⟨first, hlt, hpos, hend⟩
    · refine .inr ⟨fun id hid => ?_, hfull⟩
      by_contra hne
      have hrange := hinv.1.held_range id (Nat.pos_of_ne_zero hne)
      omega
    · refine .inl ⟨first, ⟨⟨hlt, hpos⟩, fun id hid => ?_⟩, by omega⟩
      have hrange := hinv.1.held_range id hid.2
      omega
  · intro hnone
    rcases hinv.2 with hfull | ⟨first, hlt, hpos, hend⟩
    · exact hfull
    · have hzero := hnone first hlt
      omega
  · exact fun event next hstep => (hinv.step hstep).2

/-- Whatever its clients do, the window offers every slot it can, and a slot
that is held is neither reset nor handed out for another id. -/
theorem window_run_sound {startId size : Int} {window : FixedSlidingWindow α}
    {events : List (WindowEvent α)} {state : HeldWindow α}
    (hinit : FixedSlidingWindow.init startId size = some window)
    (hrun : Execution WindowStep ⟨window, fun _ => 0⟩ events state) :
    WindowSound state :=
  (hrun.invariant (P := WindowInv) (WindowInv.start hinit)
    (fun _ _ _ hinv hstep => (hinv.step hstep).1)).sound

end

/-- Id 1 is fetched, slid out and reverted: its slot is then offered to id 5. -/
theorem window_run_sound_reclaims :
    ∃ (window : FixedSlidingWindow Nat) (events : List (WindowEvent Nat))
      (state : HeldWindow Nat),
      FixedSlidingWindow.init 1 4 = some window ∧
      Execution WindowStep ⟨window, fun _ => 0⟩ events state ∧
      state.window.beginSn = 2 ∧ state.window.endSn = 6 ∧ WindowSound state := by
  let window : FixedSlidingWindow Nat :=
    (FixedSlidingWindow.init 1 4).get (by decide)
  have hinit : FixedSlidingWindow.init 1 4 = some window :=
    (Option.some_get _).symm
  have hget : WindowStep ⟨window, fun _ => 0⟩ _ _ := .get _ 1 (by decide)
  have hrun := ((Execution.refl.snoc hget).snoc (.slide _ [.accept])).snoc
    (.revert _ 1 (by decide))
  exact ⟨window, _, _, hinit, hrun, by decide, by decide,
    window_run_sound hinit hrun⟩

end SeekDB
