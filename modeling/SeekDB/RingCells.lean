/-
Positions that share the cells of a ring: a window of as many consecutive
positions as the ring has cells meets every cell exactly once.
-/
import Mathlib.Data.Nat.Bitwise
import Mathlib.Data.Nat.Log
import Mathlib.Data.Nat.ModEq

namespace RingCells

open Nat

theorem eq_of_mod_eq {size l a b : Nat} (ha : l ≤ a) (ha' : a < l + size)
    (hb : l ≤ b) (hb' : b < l + size) (h : a % size = b % size) : a = b := by
  have key : ∀ {x y : Nat}, x ≤ y → y < x + size → x % size = y % size → x = y := by
    intro x y hle hlt hmod
    have hdvd : size ∣ y - x := (modEq_iff_dvd' hle).mp hmod
    have hzero : y - x = 0 := eq_zero_of_dvd_of_lt hdvd (by omega)
    omega
  rcases Nat.le_total a b with hle | hle
  · exact key hle (by omega) h
  · exact (key hle (by omega) h.symm).symm

theorem exists_pow_of_and_pred {n : Nat} (hpos : 0 < n) (h : n &&& (n - 1) = 0) :
    ∃ k, n = 2 ^ k := by
  refine ⟨n.log2, ?_⟩
  have hle : 2 ^ n.log2 ≤ n := log2_self_le (by omega)
  have hlt : n < 2 ^ (n.log2 + 1) := lt_log2_self
  by_contra hne
  -- otherwise both `n` and `n - 1` have the highest bit of `n`
  have hbit : ∀ m, 2 ^ n.log2 ≤ m → m < 2 ^ (n.log2 + 1) → m.testBit n.log2 = true := by
    intro m hlow hhigh
    have hdiv : m / 2 ^ n.log2 = 1 := by
      exact Nat.div_eq_of_lt_le (by omega) (by omega)
    simp [testBit_eq_decide_div_mod_eq, hdiv]
  have hboth : (n &&& (n - 1)).testBit n.log2 = true := by
    rw [testBit_and, hbit n hle hlt, hbit (n - 1) (by omega) (by omega)]
    rfl
  rw [h] at hboth
  simp at hboth

theorem and_pred_eq_mod {n : Nat} (h : ∃ k, n = 2 ^ k) (a : Nat) : a &&& (n - 1) = a % n := by
  obtain ⟨k, rfl⟩ := h
  exact and_two_pow_sub_one_eq_mod a k

/-! Blocks of values in a ring of cells. -/

section

universe u

variable {β : Type u}

/-- Overwrite `len` cells from `pos` on. -/
def copy (cells : Nat → β) (pos : Nat) (src : Nat → β) (len : Nat) : Nat → β :=
  fun p => if pos ≤ p ∧ p < pos + len then src (p - pos) else cells p

/-- Write a block that may go on at the beginning of the ring. -/
def write (size : Nat) (cells : Nat → β) (pos : Nat) (src : Nat → β) (len : Nat) : Nat → β :=
  let first := min (size - pos) len
  let front := copy cells pos src first
  if first < len then copy front 0 (fun i => src (first + i)) (len - first)
  else front

/-- Read a block that may go on at the beginning of the ring. -/
def read (size : Nat) (cells : Nat → β) (pos len : Nat) : Nat → β :=
  let first := min (size - pos) len
  fun i => if i < first then cells (pos + i) else cells (i - first)

theorem cell_add {size a i : Nat} (hi : i < size) : (a + i) % size =
      if a % size + i < size then a % size + i else a % size + i - size := by
  have hmod := mod_lt a (zero_lt_of_lt hi)
  rw [← mod_add_mod]
  split_ifs with hlt
  · exact mod_eq_of_lt hlt
  · rw [mod_eq_sub_mod (by omega), mod_eq_of_lt (by omega)]

theorem write_at {size a i len : Nat} {cells src : Nat → β} (hi : i < len) (hlen : len ≤ size) :
    write size cells (a % size) src len ((a + i) % size) = src i := by
  have hmod := mod_lt a (show 0 < size by omega)
  rw [cell_add (by omega)]
  unfold write copy
  by_cases hwrap : a % size + i < size
  · rw [if_pos hwrap]
    by_cases hlong : min (size - a % size) len < len
    · simp only [hlong, if_true]
      rw [if_neg (by omega), if_pos (by omega)]
      congr 1
      omega
    simp only [hlong, if_false]
    rw [if_pos (by omega)]
    congr 1
    omega
  · rw [if_neg hwrap]
    have hlong : min (size - a % size) len < len := by omega
    simp only [hlong, if_true]
    rw [if_pos (by omega)]
    congr 1
    omega

theorem write_other {size a len p : Nat} {cells src : Nat → β} (hp : p < size)
    (hlen : len ≤ size) (hother : ∀ i, i < len → (a + i) % size ≠ p) :
    write size cells (a % size) src len p = cells p := by
  have hmod := mod_lt a (show 0 < size by omega)
  have hfront : ¬ (a % size ≤ p ∧ p < a % size + min (size - a % size) len) := by
    intro hin
    apply hother (p - a % size) (by omega)
    rw [cell_add (by omega), if_pos (by omega)]
    omega
  unfold write
  split
  · have hback : ¬ (0 ≤ p ∧ p < 0 + (len - min (size - a % size) len)) := by
      intro hin
      apply hother (p + size - a % size) (by omega)
      rw [cell_add (by omega), if_neg (by omega)]
      omega
    unfold copy
    rw [if_neg hback, if_neg hfront]
  · unfold copy
    rw [if_neg hfront]

theorem read_at {size a i len : Nat} {cells : Nat → β} (hi : i < len) (hlen : len ≤ size) :
    read size cells (a % size) len i = cells ((a + i) % size) := by
  have hmod := mod_lt a (show 0 < size by omega)
  rw [cell_add (by omega)]
  unfold read
  by_cases hwrap : a % size + i < size
  · rw [if_pos hwrap, if_pos (by omega)]
  · rw [if_neg hwrap, if_neg (by omega)]
    congr 1
    omega

end

end RingCells
