/-
Bits of a memory of bytes.  A field is a number of consecutive bits that holds
a machine word; words are copied to whole bytes or or-ed into the memory.
-/
import Mathlib

namespace BitMemory

open Nat

/-- The bits of the memory, least significant bit of a byte first. -/
def bit (mem : Nat → BitVec 8) (i : Nat) : Bool := (mem (i / 8)).getLsbD (i % 8)

/-- The `len` bits from `pos` on hold `v`, which has no bits above. -/
structure Field (mem : Nat → BitVec 8) (pos len : Nat) (v : BitVec 64) : Prop where
  bits : ∀ j < len, bit mem (pos + j) = v.getLsbD j
  above : ∀ j, len ≤ j → v.getLsbD j = false

/-- Byte `k` of a word, least significant byte first. -/
def byteOf (v : BitVec 64) (k : Nat) : BitVec 8 := v.extractLsb' (8 * k) 8

/-- The low `len` bytes of a word are copied to the memory. -/
def copyTo (mem : Nat → BitVec 8) (pos len : Nat) (v : BitVec 64) : Nat → BitVec 8 := fun p =>
  if pos ≤ p ∧ p < pos + len then byteOf v (p - pos) else mem p

/-- The low `len` bytes of a word are read from the memory, the others are zero. -/
def copyFrom (mem : Nat → BitVec 8) (pos : Nat) : Nat → BitVec 64
  | 0 => 0
  | len + 1 => copyFrom mem pos len ||| (mem (pos + len)).setWidth 64 <<< (8 * len)

/-- A range of bytes is cleared. -/
def fillZero (mem : Nat → BitVec 8) (pos len : Nat) : Nat → BitVec 8 := fun p =>
  if pos ≤ p ∧ p < pos + len then 0 else mem p

/-- A word is or-ed into eight bytes. -/
def orWord (mem : Nat → BitVec 8) (pos : Nat) (v : BitVec 64) : Nat → BitVec 8 := fun p =>
  if pos ≤ p ∧ p < pos + 8 then mem p ||| byteOf v (p - pos) else mem p

def orByte (mem : Nat → BitVec 8) (pos : Nat) (v : BitVec 8) : Nat → BitVec 8 := fun p =>
  if p = pos then mem p ||| v else mem p

variable {mem mem' : Nat → BitVec 8} {pos len i j p : Nat} {v w : BitVec 64}

theorem bit_add_mul (mem : Nat → BitVec 8) (k : Nat) (hj : j < 8) :
    bit mem (8 * k + j) = (mem k).getLsbD j := by
  rw [bit, mul_add_div (by decide), div_eq_of_lt hj, mul_add_mod,
    mod_eq_of_lt hj, Nat.add_zero]

theorem getLsbD_byteOf (v : BitVec 64) (k : Nat) (hj : j < 8) :
    (byteOf v k).getLsbD j = v.getLsbD (8 * k + j) := by
  simp [byteOf, hj]

theorem bit_congr (h : mem (i / 8) = mem' (i / 8)) : bit mem i = bit mem' i := by
  rw [bit, bit, h]

theorem exists_byte (i : Nat) : ∃ k j, j < 8 ∧ i = 8 * k + j :=
  ⟨i / 8, i % 8, mod_lt _ (by decide), (div_add_mod i 8).symm⟩

theorem bit_copyTo (mem : Nat → BitVec 8) (pos len : Nat) (v : BitVec 64) (i : Nat) :
    bit (copyTo mem pos len v) i =
      if 8 * pos ≤ i ∧ i < 8 * pos + 8 * len then v.getLsbD (i - 8 * pos) else bit mem i := by
  obtain ⟨k, j, hj, rfl⟩ := exists_byte i
  rw [bit_add_mul _ _ hj, bit_add_mul _ _ hj, copyTo]
  by_cases hk : pos ≤ k ∧ k < pos + len
  · rw [if_pos hk, if_pos (by omega), getLsbD_byteOf _ _ hj]
    congr 1
    omega
  · rw [if_neg hk, if_neg (by omega)]

theorem bit_fillZero_of_lt (hi : i < 8 * len) : bit (fillZero mem 0 len) i = false := by
  rw [bit, fillZero, if_pos (by omega)]
  simp

theorem bit_orWord (mem : Nat → BitVec 8) (pos : Nat) (v : BitVec 64) (i : Nat) :
    bit (orWord mem pos v) i =
      (bit mem i || (decide (8 * pos ≤ i) && v.getLsbD (i - 8 * pos))) := by
  obtain ⟨k, j, hj, rfl⟩ := exists_byte i
  rw [bit_add_mul _ _ hj, bit_add_mul _ _ hj, orWord]
  by_cases hk : pos ≤ k ∧ k < pos + 8
  · have hindex : 8 * k + j - 8 * pos = 8 * (k - pos) + j := by omega
    rw [if_pos hk, BitVec.getLsbD_or, getLsbD_byteOf _ _ hj, hindex,
      decide_eq_true (by omega : 8 * pos ≤ 8 * k + j), Bool.true_and]
  rw [if_neg hk]
  by_cases hlow : 8 * pos ≤ 8 * k + j
  · rw [BitVec.getLsbD_of_ge v _ (by omega), Bool.and_false, Bool.or_false]
  · rw [decide_eq_false hlow, Bool.false_and, Bool.or_false]

theorem bit_orByte (mem : Nat → BitVec 8) (pos : Nat) (v : BitVec 8) (i : Nat) :
    bit (orByte mem pos v) i =
      (bit mem i || (decide (8 * pos ≤ i) && v.getLsbD (i - 8 * pos))) := by
  obtain ⟨k, j, hj, rfl⟩ := exists_byte i
  rw [bit_add_mul _ _ hj, bit_add_mul _ _ hj, orByte]
  split_ifs with hk
  · rw [BitVec.getLsbD_or, hk, Nat.add_sub_cancel_left,
      decide_eq_true (Nat.le_add_right _ _), Bool.true_and]
  · by_cases hlow : 8 * pos ≤ 8 * k + j
    · rw [BitVec.getLsbD_of_ge v _ (by omega), Bool.and_false, Bool.or_false]
    · rw [decide_eq_false hlow, Bool.false_and, Bool.or_false]

theorem getLsbD_copyFrom (mem : Nat → BitVec 8) (pos : Nat) (hlen : len ≤ 8) (j : Nat) :
    (copyFrom mem pos len).getLsbD j = (decide (j < 8 * len) && bit mem (8 * pos + j)) := by
  induction len with
  | zero => simp [copyFrom]
  | succ len ih =>
    rw [copyFrom, BitVec.getLsbD_or, ih (by omega), BitVec.getLsbD_shiftLeft,
      BitVec.getLsbD_setWidth]
    by_cases hlow : j < 8 * len
    · simp [hlow, (by omega : j < 8 * (len + 1))]
    by_cases hhigh : j < 8 * (len + 1)
    · have hbyte : bit mem (8 * pos + j) = (mem (pos + len)).getLsbD (j - 8 * len) := by
        have hsplit : 8 * pos + j = 8 * (pos + len) + (j - 8 * len) := by omega
        rw [hsplit, bit_add_mul _ _ (by omega)]
      simp [hlow, hhigh, hbyte, (by omega : j < 64), (by omega : j - 8 * len < 64)]
    · simp [hlow, hhigh, BitVec.getLsbD_of_ge (mem (pos + len)) (j - 8 * len) (by omega)]

namespace Field

theorem eq_of (hv : Field mem pos len v) (hw : ∀ j, w.getLsbD j =
    (decide (j < len) && bit mem (pos + j))) : w = v := by
  apply BitVec.eq_of_getLsbD_eq
  intro j _
  rw [hw]
  by_cases hj : j < len
  · rw [decide_eq_true hj, Bool.true_and, hv.bits j hj]
  · rw [decide_eq_false hj, Bool.false_and, hv.above j (by omega)]

theorem congr (hv : Field mem pos len v) (h : ∀ j < len, bit mem' (pos + j) = bit mem (pos + j)) :
    Field mem' pos len v where
  bits := fun j hj => (h j hj).trans (hv.bits j hj)
  above := hv.above

theorem copyFrom_eq (hv : Field mem (8 * pos) (8 * len) v) (hlen : len ≤ 8) :
    copyFrom mem pos len = v :=
  hv.eq_of (getLsbD_copyFrom mem pos hlen)

end Field

theorem field_copyTo (mem : Nat → BitVec 8) (pos : Nat)
    (habove : ∀ j, 8 * len ≤ j → v.getLsbD j = false) :
    Field (copyTo mem pos len v) (8 * pos) (8 * len) v where
  bits := by
    intro j hj
    rw [bit_copyTo, if_pos (by omega), Nat.add_sub_cancel_left]
  above := habove

theorem field_copyTo_mask (mem : Nat → BitVec 8) (pos : Nat) {mask : BitVec 64}
    (hmask : mask = BitVec.ofNat 64 (2 ^ (8 * len) - 1)) :
    Field (copyTo mem pos len v) (8 * pos) (8 * len) (v &&& mask) where
  bits := by
    intro j hj
    rw [bit_copyTo, if_pos (by omega), Nat.add_sub_cancel_left, BitVec.getLsbD_and, hmask,
      BitVec.getLsbD_ofNat, testBit_two_pow_sub_one, decide_eq_true hj, Bool.and_true]
    by_cases hword : j < 64
    · rw [decide_eq_true hword, Bool.and_true]
    · rw [BitVec.getLsbD_of_ge v j (by omega), Bool.false_and]
  above := by
    intro j hj
    rw [BitVec.getLsbD_and, hmask, BitVec.getLsbD_ofNat, testBit_two_pow_sub_one,
      decide_eq_false (by omega : ¬ j < 8 * len), Bool.and_false, Bool.and_false]

end BitMemory
