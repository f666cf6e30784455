/-
Machine words in signed or unsigned order: differences of ordered words, and
words that are cut to fewer bits and extended again.
-/
import Mathlib

namespace WordOrder

/-- The number a word stands for. -/
def ord (signed : Bool) (v : BitVec 64) : Int := if signed then v.toInt else v.toNat

def less (signed : Bool) (a b : BitVec 64) : Bool := if signed then a.slt b else a.ult b

/-- The word stands for a number of that many bits. -/
def InRange (signed : Bool) (bits : Nat) (v : BitVec 64) : Prop :=
  if signed then -2 ^ (bits - 1) ≤ v.toInt ∧ v.toInt < 2 ^ (bits - 1) else v.toNat < 2 ^ bits

instance (signed : Bool) (bits : Nat) (v : BitVec 64) : Decidable (InRange signed bits v) := by
  unfold InRange
  infer_instance

/-- The sign of the part below the mask is spread over the bits of `reverse`. -/
def extend (reverse v : BitVec 64) : BitVec 64 :=
  if reverse ≠ 0#64 ∧ v &&& (reverse >>> 1) ≠ 0#64 then v ||| reverse else v

variable {signed : Bool} {a b v : BitVec 64} {bits i : Nat}

theorem less_iff : less signed a b = true ↔ ord signed a < ord signed b := by
  cases signed with
  | true => exact BitVec.slt_iff_toInt_lt
  | false =>
    change a.ult b = true ↔ (a.toNat : Int) < b.toNat
    rw [BitVec.ult_iff_lt, BitVec.lt_def, Int.ofNat_lt]

theorem less_eq_false_iff : less signed a b = false ↔ ord signed b ≤ ord signed a := by
  rw [← Bool.not_eq_true, less_iff, Int.not_lt]

theorem toNat_sub_of_le (h : ord signed b ≤ ord signed a) :
    ((a - b).toNat : Int) = ord signed a - ord signed b := by
  cases signed with
  | true =>
    change b.toInt ≤ a.toInt at h
    change _ = a.toInt - b.toInt
    rw [BitVec.toInt_eq_toNat_cond, BitVec.toInt_eq_toNat_cond] at h ⊢
    rw [BitVec.toNat_sub]
    split_ifs at h ⊢ <;> omega
  | false =>
    change (b.toNat : Int) ≤ a.toNat at h
    change _ = (a.toNat : Int) - b.toNat
    rw [BitVec.toNat_sub]
    omega

theorem InRange.getLsbD_eq (h : InRange true bits v) (hlow : bits - 1 ≤ i) (hi : i < 64) :
    v.getLsbD i = decide (v.toInt < 0) := by
  have hrange : -2 ^ (bits - 1) ≤ v.toInt ∧ v.toInt < 2 ^ (bits - 1) := h
  have hpow : (2 : Nat) ^ (bits - 1) ≤ 2 ^ i := Nat.pow_le_pow_right (by decide) hlow
  have hcast : ((2 ^ (bits - 1) : Nat) : Int) = 2 ^ (bits - 1) := by push_cast; rfl
  rw [BitVec.toInt_eq_toNat_cond] at hrange ⊢
  split_ifs at hrange ⊢ with hmsb
  · exact Nat.testBit_lt_two_pow (by omega)
  rw [decide_eq_true (by omega)]
  have hnot : (~~~v).getLsbD i = false := by
    apply Nat.testBit_lt_two_pow
    rw [BitVec.toNat_not]
    omega
  rw [BitVec.getLsbD_not, decide_eq_true hi, Bool.true_and, Bool.not_eq_false'] at hnot
  exact hnot

theorem InRange.getLsbD_eq_false (h : InRange false bits v) (hlow : bits ≤ i) :
    v.getLsbD i = false := by
  have hrange : v.toNat < 2 ^ bits := h
  exact Nat.testBit_lt_two_pow
    (Nat.lt_of_lt_of_le hrange (Nat.pow_le_pow_right (by decide) hlow))

theorem getLsbD_mask (hi : i < 64) :
    (BitVec.ofNat 64 (2 ^ bits - 1)).getLsbD i = decide (i < bits) := by
  rw [BitVec.getLsbD_ofNat, Nat.testBit_two_pow_sub_one, decide_eq_true hi, Bool.true_and]

theorem InRange.and_mask (h : InRange false bits v) : v &&& BitVec.ofNat 64 (2 ^ bits - 1) = v := by
  apply BitVec.eq_of_getLsbD_eq
  intro i hi
  rw [BitVec.getLsbD_and, getLsbD_mask hi]
  by_cases hlt : i < bits
  · rw [decide_eq_true hlt, Bool.and_true]
  · rw [h.getLsbD_eq_false (by omega), Bool.false_and]

theorem InRange.extend_and_mask (h : InRange true bits v) (hpos : 0 < bits) :
    extend (~~~(BitVec.ofNat 64 (2 ^ bits - 1))) (v &&& BitVec.ofNat 64 (2 ^ bits - 1)) = v := by
  have hreverse : ∀ i < 64, (~~~(BitVec.ofNat 64 (2 ^ bits - 1))).getLsbD i =
      decide (bits ≤ i) := by
    intro i hi
    rw [BitVec.getLsbD_not, getLsbD_mask hi, decide_eq_true hi, Bool.true_and, ← decide_not,
      decide_eq_decide]
    omega
  have hlow : ∀ i < 64, (v &&& BitVec.ofNat 64 (2 ^ bits - 1)).getLsbD i =
      (v.getLsbD i && decide (i < bits)) := by
    intro i hi
    rw [BitVec.getLsbD_and, getLsbD_mask hi]
  unfold extend
  split_ifs with hspread
  · obtain ⟨-, hspread⟩ := hspread
    -- only the sign bit can be in both
    have hneg : v.toInt < 0 := by
      by_contra hnonneg
      apply hspread
      apply BitVec.eq_of_getLsbD_eq
      intro i hi
      rw [BitVec.getLsbD_and, hlow i hi, BitVec.getLsbD_ushiftRight, BitVec.getLsbD_zero]
      by_cases hlast : bits - 1 ≤ i
      · rw [h.getLsbD_eq hlast hi, decide_eq_false hnonneg, Bool.false_and, Bool.false_and]
      by_cases hnext : 1 + i < 64
      · rw [hreverse _ hnext, decide_eq_false (by omega : ¬ bits ≤ 1 + i), Bool.and_false]
      · have hout : (~~~(BitVec.ofNat 64 (2 ^ bits - 1))).getLsbD (1 + i) = false :=
          BitVec.getLsbD_of_ge _ _ (by omega)
        rw [hout, Bool.and_false]
    apply BitVec.eq_of_getLsbD_eq
    intro i hi
    rw [BitVec.getLsbD_or, hlow i hi, hreverse i hi]
    by_cases hlt : i < bits
    · rw [decide_eq_true hlt, Bool.and_true, decide_eq_false (by omega : ¬ bits ≤ i),
        Bool.or_false]
    · rw [h.getLsbD_eq (by omega) hi, decide_eq_true hneg, decide_eq_true (by omega : bits ≤ i),
        Bool.or_true]
  · apply BitVec.eq_of_getLsbD_eq
    intro i hi
    rw [hlow i hi]
    by_cases hlt : i < bits
    · rw [decide_eq_true hlt, Bool.and_true]
    rw [decide_eq_false hlt, Bool.and_false, h.getLsbD_eq (by omega) hi]
    symm
    rw [decide_eq_false_iff_not]
    intro hneg
    apply hspread
    constructor
    · intro hzero
      have hbit := hreverse i hi
      rw [hzero, decide_eq_true (by omega : bits ≤ i)] at hbit
      simp at hbit
    intro hzero
    have hsign := congrArg (fun w => BitVec.getLsbD w (bits - 1)) hzero
    simp only [BitVec.getLsbD_and, BitVec.getLsbD_ushiftRight, BitVec.getLsbD_zero] at hsign
    rw [h.getLsbD_eq le_rfl (by omega), decide_eq_true hneg, getLsbD_mask (by omega),
      hreverse _ (by omega), decide_eq_true (by omega : bits - 1 < bits),
      decide_eq_true (by omega : bits ≤ 1 + (bits - 1))] at hsign
    exact absurd hsign (by decide)

end WordOrder
