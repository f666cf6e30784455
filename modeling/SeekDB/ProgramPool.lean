/-
Threads as the lists of atomic actions they still have to do.  A pool holds the
programs of all threads; a step takes the first action of one of them.  The
weight of the pending actions is the bookkeeping that balances a counter which
the actions update.
-/
import Mathlib

universe u

namespace ProgramPool

open List

variable {Action : Type u}

/-- Some program of the pool still has to do the action. -/
def Waiting (pool : List (List Action)) (action : Action) : Prop :=
  ∃ program ∈ pool, action ∈ program

/-- The weight of everything still to be done. -/
def pending (weight : Action → Nat) (pool : List (List Action)) : Nat :=
  (pool.map fun program => (program.map weight).sum).sum

variable {pool : List (List Action)} {action : Action} {rest : List Action}
  {index : Nat} {weight : Action → Nat}

@[simp]
theorem pending_cons (weight : Action → Nat) (program : List Action) (pool : List (List Action)) :
    pending weight (program :: pool) = (program.map weight).sum + pending weight pool := by
  simp [pending]

theorem pending_set (htake : pool[index]? = some (action :: rest)) :
    pending weight pool = weight action + pending weight (pool.set index rest) := by
  induction pool generalizing index with
  | nil => simp at htake
  | cons program others ih =>
    cases index with
    | zero =>
      obtain rfl : program = action :: rest := by simpa using htake
      simp [Nat.add_assoc]
    | succ index =>
      have htake' : others[index]? = some (action :: rest) := by
        simpa using htake
      have hothers := ih htake'
      simp only [set_cons_succ, pending_cons, hothers]
      omega

theorem weight_le_pending (hwaiting : Waiting pool action) :
    weight action ≤ pending weight pool := by
  obtain ⟨program, hprogram, haction⟩ := hwaiting
  calc weight action ≤ (program.map weight).sum :=
        single_le_sum (by simp) _ (mem_map_of_mem haction)
    _ ≤ pending weight pool :=
        single_le_sum (by simp) _
          (mem_map.mpr ⟨program, hprogram, rfl⟩)

theorem pending_eq_zero (hnone : ∀ action, Waiting pool action → weight action = 0) :
    pending weight pool = 0 := by
  apply sum_eq_zero
  intro total htotal
  obtain ⟨program, hprogram, rfl⟩ := mem_map.mp htotal
  apply sum_eq_zero
  intro value hvalue
  obtain ⟨action, haction, rfl⟩ := mem_map.mp hvalue
  exact hnone action ⟨program, hprogram, haction⟩

theorem program_of_set {program : List Action} (hprogram : program ∈ pool.set index rest) :
    program = rest ∨ program ∈ pool :=
  (mem_or_eq_of_mem_set hprogram).symm

theorem waiting_of_set {other : Action} (htake : pool[index]? = some (action :: rest))
    (hwaiting : Waiting (pool.set index rest) other) : Waiting pool other := by
  obtain ⟨program, hprogram, hother⟩ := hwaiting
  rcases program_of_set hprogram with rfl | hprogram
  · exact ⟨_, mem_of_getElem? htake, mem_cons_of_mem _ hother⟩
  · exact ⟨program, hprogram, hother⟩

theorem waiting_set_or_eq {other : Action}
    (htake : pool[index]? = some (action :: rest)) (hwaiting : Waiting pool other) :
    other = action ∨ Waiting (pool.set index rest) other := by
  obtain ⟨program, hprogram, hother⟩ := hwaiting
  obtain ⟨position, hposition, heq⟩ := mem_iff_getElem.mp hprogram
  by_cases hsame : position = index
  · subst hsame
    rw [List.getElem?_eq_getElem hposition, heq, Option.some.injEq] at htake
    subst htake
    rcases mem_cons.mp hother with rfl | hother
    · exact .inl rfl
    · exact .inr ⟨rest, mem_set hposition rest, hother⟩
  · refine .inr ⟨program, ?_, hother⟩
    rw [mem_iff_getElem]
    refine ⟨position, by simpa using hposition, ?_⟩
    rw [getElem_set_of_ne (Ne.symm hsame), heq]

theorem waiting_cons {program : List Action} :
    Waiting (program :: pool) action ↔ action ∈ program ∨ Waiting pool action := by
  simp [Waiting]

end ProgramPool
