/-
Memory as a function from addresses to cells: reading a range as a list,
storing a list and moving a range that may overlap its destination.
-/
import Mathlib

universe u

namespace ByteMemory

open List

variable {β : Type u}

/-- The `len` cells from `start` on. -/
def segment (mem : Nat → β) (start len : Nat) : List β :=
  (List.range len).map fun i => mem (start + i)

/-- Store a list from `pos` on. -/
def store (mem : Nat → β) (pos : Nat) (cells : List β) : Nat → β :=
  fun p => if pos ≤ p then (cells[p - pos]?).getD (mem p) else mem p

/-- Copy `len` cells as if through a buffer of its own. -/
def move (mem : Nat → β) (src dst len : Nat) : Nat → β :=
  fun p => if dst ≤ p ∧ p < dst + len then mem (src + (p - dst)) else mem p

variable {mem other : Nat → β} {start len pos src dst p : Nat} {cells : List β}

@[simp]
theorem length_segment (mem : Nat → β) (start len : Nat) :
    (segment mem start len).length = len := by
  simp [segment]

theorem segment_add (mem : Nat → β) (start left right : Nat) : segment mem start (left + right) =
      segment mem start left ++ segment mem (start + left) right := by
  simp [segment, range_add, Nat.add_assoc]

theorem take_segment {k : Nat} (hk : k ≤ len) :
    (segment mem start len).take k = segment mem start k := by
  obtain ⟨rest, rfl⟩ := Nat.exists_eq_add_of_le hk
  rw [segment_add, take_left' (length_segment mem start k)]

theorem drop_segment {k : Nat} (hk : k ≤ len) :
    (segment mem start len).drop k = segment mem (start + k) (len - k) := by
  obtain ⟨rest, rfl⟩ := Nat.exists_eq_add_of_le hk
  rw [segment_add, drop_left' (length_segment mem start k), Nat.add_sub_cancel_left]

theorem getElem?_segment {i : Nat} (hi : i < len) :
    (segment mem start len)[i]? = some (mem (start + i)) := by
  simp [segment, hi]

theorem segment_congr {start' : Nat} (h : ∀ i, i < len → mem (start + i) = other (start' + i)) :
    segment mem start len = segment other start' len := by
  apply map_congr_left
  intro i hi
  exact h i (mem_range.mp hi)

theorem store_at {i : Nat} (hi : i < cells.length) : store mem pos cells (pos + i) = cells[i] := by
  simp [store, hi]

theorem store_other (h : p < pos ∨ pos + cells.length ≤ p) : store mem pos cells p = mem p := by
  unfold store
  split
  · rw [List.getElem?_eq_none (by omega)]
    rfl
  · rfl

theorem segment_store (mem : Nat → β) (pos : Nat) (cells : List β) :
    segment (store mem pos cells) pos cells.length = cells := by
  apply ext_getElem?
  intro i
  by_cases hi : i < cells.length
  · rw [getElem?_segment hi, store_at hi, List.getElem?_eq_getElem hi]
  · rw [List.getElem?_eq_none (by simp; omega), List.getElem?_eq_none (by omega)]

theorem move_at {i : Nat} (hi : i < len) : move mem src dst len (dst + i) = mem (src + i) := by
  unfold move
  rw [if_pos (by omega), Nat.add_sub_cancel_left]

theorem move_other (h : p < dst ∨ dst + len ≤ p) : move mem src dst len p = mem p := by
  unfold move
  rw [if_neg (by omega)]

end ByteMemory
