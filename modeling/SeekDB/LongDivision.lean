/-
Long division of limb numbers: the estimate of a quotient digit from the
leading limbs of a normalised divisor, its correction, and the loop over the
digits.
-/
import SeekDB.Limbs

namespace LongDivision

open Limbs

section

/-- Multiplied by the normalising factor, a leading limb is at least half the base. -/
theorem half_le_normalised {B v : Int} (hv : 1 ≤ v) (hvB : v < B) (heven : 2 ∣ B) :
    B ≤ 2 * (v * (B / (v + 1))) := by
  obtain ⟨h, rfl⟩ := heven
  have hpos : 0 < v + 1 := by omega
  have hmod := Int.emod_lt_of_pos (2 * h) hpos
  have hsplit := Int.mul_ediv_add_emod (2 * h) (v + 1)
  generalize 2 * h / (v + 1) = d at *
  rcases lt_or_ge v h with hsmall | hlarge
  · -- `d > 2h / (v + 1) - 1`, so `v * d > h - 1`.
    have hd : 2 * h - v ≤ (v + 1) * d := by omega
    have hprod : (v + 1) * (h - 1) < (v + 1) * (v * d) := by
      nlinarith
    have := lt_of_mul_lt_mul_left hprod hpos.le
    omega
  have hone : 1 ≤ d := by
    by_contra hnot
    have : (v + 1) * d ≤ 0 := mul_nonpos_of_nonneg_of_nonpos hpos.le (by omega)
    omega
  have : v * 1 ≤ v * d := mul_le_mul_of_nonneg_left hone (by omega)
  omega

theorem normalised_lt {B v P b : Int} (hv : 0 ≤ v) (hP : 0 ≤ P) (hb : b < (v + 1) * P)
    (hd : 0 < B / (v + 1)) :
    b * (B / (v + 1)) < B * P := by
  have hle : (v + 1) * (B / (v + 1)) ≤ B := Int.mul_ediv_self_le (by omega)
  calc b * (B / (v + 1)) < (v + 1) * P * (B / (v + 1)) := mul_lt_mul_of_pos_right hb hd
    _ = (v + 1) * (B / (v + 1)) * P := by ring
    _ ≤ B * P := mul_le_mul_of_nonneg_right hle hP

end

section

variable {B P v vTop vLow u uTop uLow q qHat rHat : Int}

/-- `u` divided by `v`, and the estimate `qHat` from their leading limbs. -/
structure Estimate (B P v vTop vLow u uTop uLow q qHat rHat : Int) : Prop where
  base : 4 ≤ B
  place : 0 < P
  divisor : v = vTop * P + vLow
  vLow_nonneg : 0 ≤ vLow
  vLow_lt : vLow < P
  dividend : u = uTop * P + uLow
  uLow_nonneg : 0 ≤ uLow
  uLow_lt : uLow < P
  nonneg : 0 ≤ u
  below : u < v * B
  normalised : B ≤ 2 * vTop
  estimate : uTop = qHat * vTop + rHat
  rHat_nonneg : 0 ≤ rHat
  rHat_lt : rHat < vTop
  quotient_le : q * v ≤ u
  lt_quotient : u < (q + 1) * v

variable (h : Estimate B P v vTop vLow u uTop uLow q qHat rHat)

include h

theorem Estimate.divisor_pos : 0 < v := by
  have htop : 0 < vTop := by have := h.normalised; have := h.base; omega
  have := mul_pos htop h.place
  have := h.divisor
  have := h.vLow_nonneg
  omega

theorem Estimate.quotient_nonneg : 0 ≤ q := by
  have hpos : 0 < (q + 1) * v := lt_of_le_of_lt h.nonneg h.lt_quotient
  have := (mul_pos_iff_of_pos_right h.divisor_pos).mp hpos
  omega

theorem Estimate.quotient_lt : q < B := by
  have hlt : q * v < B * v := by
    have := h.quotient_le
    have := h.below
    linarith
  exact lt_of_mul_lt_mul_right hlt h.divisor_pos.le

theorem Estimate.le_qHat : q ≤ qHat := by
  have htop : 0 < vTop := by have := h.normalised; have := h.base; omega
  have hfront : q * vTop < uTop + 1 := by
    apply lt_of_mul_lt_mul_right _ h.place.le
    calc q * vTop * P ≤ q * v := by
          rw [h.divisor]
          have := mul_nonneg h.quotient_nonneg h.vLow_nonneg
          linarith
      _ ≤ u := h.quotient_le
      _ < (uTop + 1) * P := by
          rw [h.dividend]
          have := h.uLow_lt
          linarith
  have hback : q * vTop < (qHat + 1) * vTop := by
    have := h.estimate
    have := h.rHat_lt
    linarith
  have := lt_of_mul_lt_mul_right hback htop.le
  omega

theorem Estimate.qHat_nonneg : 0 ≤ qHat := h.quotient_nonneg.trans h.le_qHat

theorem Estimate.qHat_mul_le : qHat * vTop * P ≤ u := by
  calc qHat * vTop * P ≤ uTop * P := by
        apply mul_le_mul_of_nonneg_right _ h.place.le
        have := h.estimate
        have := h.rHat_nonneg
        linarith
    _ ≤ u := by
        rw [h.dividend]
        have := h.uLow_nonneg
        linarith

theorem Estimate.qHat_le_base_succ : qHat ≤ B + 1 := by
  have htop : 0 < vTop := by have := h.normalised; have := h.base; omega
  have hfront : qHat * vTop < (vTop + 1) * B := by
    apply lt_of_mul_lt_mul_right _ h.place.le
    calc qHat * vTop * P ≤ u := h.qHat_mul_le
      _ < v * B := h.below
      _ ≤ (vTop + 1) * P * B := by
          apply mul_le_mul_of_nonneg_right _ (by have := h.base; omega)
          rw [h.divisor]
          have := h.vLow_lt
          linarith
      _ = (vTop + 1) * B * P := by ring
  have hback : qHat * vTop < (B + 2) * vTop := by
    have := h.normalised
    linarith
  have := lt_of_mul_lt_mul_right hback htop.le
  omega

theorem Estimate.qHat_le : qHat ≤ q + 2 := by
  have hv := h.divisor_pos
  rcases le_or_gt qHat B with hsmall | hlarge
  · have hlt : qHat * v < (q + 3) * v := by
      calc qHat * v = qHat * vTop * P + qHat * vLow := by rw [h.divisor]; ring
        _ ≤ u + qHat * P :=
            add_le_add h.qHat_mul_le (mul_le_mul_of_nonneg_left h.vLow_lt.le h.qHat_nonneg)
        _ ≤ u + 2 * vTop * P := by
            have := mul_le_mul_of_nonneg_right (hsmall.trans h.normalised) h.place.le
            linarith
        _ ≤ u + 2 * v := by
            rw [h.divisor]
            have := h.vLow_nonneg
            linarith
        _ < (q + 3) * v := by
            have := h.lt_quotient
            linarith
    have := lt_of_mul_lt_mul_right hlt hv.le
    omega
  · -- Above the base the quotient digit is the largest one.
    have hlt : (B - 1) * v < (q + 1) * v := by
      calc (B - 1) * v ≤ (B - 1) * ((vTop + 1) * P) := by
            apply mul_le_mul_of_nonneg_left _ (by have := h.base; omega)
            rw [h.divisor]
            have := h.vLow_lt
            linarith
        _ ≤ (B + 1) * vTop * P := by
            rw [← mul_assoc]
            apply mul_le_mul_of_nonneg_right _ h.place.le
            have := h.normalised
            linarith
        _ ≤ qHat * vTop * P := by
            apply mul_le_mul_of_nonneg_right _ h.place.le
            apply mul_le_mul_of_nonneg_right (by omega)
            have := h.normalised
            have := h.base
            omega
        _ ≤ u := h.qHat_mul_le
        _ < (q + 1) * v := h.lt_quotient
    have := lt_of_mul_lt_mul_right hlt hv.le
    have := h.qHat_le_base_succ
    omega

theorem Estimate.exact (hplace : P = 1) : qHat = q := by
  have hv : vLow = 0 := by have := h.vLow_nonneg; have := h.vLow_lt; omega
  have hlt : qHat * v < (q + 1) * v := by
    have hle := h.qHat_mul_le
    have hdivisor := h.divisor
    rw [hplace, mul_one] at hle
    rw [hplace, hv, mul_one, add_zero] at hdivisor
    calc qHat * v ≤ u := by rwa [hdivisor]
      _ < (q + 1) * v := h.lt_quotient
  have := lt_of_mul_lt_mul_right hlt h.divisor_pos.le
  have := h.le_qHat
  omega

variable {Q vNext uNext vRest uRest : Int} (hQ : P = B * Q)
  (hv : vLow = vNext * Q + vRest) (hvRest : 0 ≤ vRest) (hvRestLt : vRest < Q)
  (hvNext : 0 ≤ vNext) (hu : uLow = uNext * Q + uRest) (huRest : 0 ≤ uRest)
  (huRestLt : uRest < Q)

include hQ hv hu

theorem Estimate.lt_of_test (hvRest : 0 ≤ vRest) (huRestLt : uRest < Q)
    (htest : B * rHat + uNext < qHat * vNext) : q < qHat := by
  have hQpos : 0 < Q := by
    have hplace := h.place
    rw [hQ] at hplace
    exact (mul_pos_iff_of_pos_left (by have := h.base; omega)).mp hplace
  have hlt : q * v < qHat * v := by
    calc q * v ≤ u := h.quotient_le
      _ < (uTop * B + uNext + 1) * Q := by
          rw [h.dividend, hu, hQ]
          linarith
      _ ≤ qHat * (vTop * B + vNext) * Q := by
          apply mul_le_mul_of_nonneg_right _ hQpos.le
          rw [h.estimate]
          linarith
      _ ≤ qHat * v := by
          have := mul_nonneg h.qHat_nonneg hvRest
          rw [h.divisor, hv, hQ]
          linarith
  exact lt_of_mul_lt_mul_right hlt h.divisor_pos.le

theorem Estimate.le_of_test (hvRestLt : vRest < Q) (hvNext : 0 ≤ vNext) (huRest : 0 ≤ uRest)
    (hvRest : 0 ≤ vRest) (htest : qHat * vNext ≤ B * rHat + uNext) : qHat ≤ q + 1 := by
  have hbase := h.base
  have hQpos : 0 < Q := by
    have hplace := h.place
    rw [hQ] at hplace
    exact (mul_pos_iff_of_pos_left (by omega)).mp hplace
  have hsmall : qHat * Q ≤ v := by
    have htop : 2 ≤ vTop := by have := h.normalised; omega
    have hfront : B + 1 ≤ vTop * B := by
      have := mul_le_mul_of_nonneg_right htop (by omega : 0 ≤ B)
      omega
    calc qHat * Q ≤ (vTop * B) * Q :=
          mul_le_mul_of_nonneg_right (h.qHat_le_base_succ.trans hfront) hQpos.le
      _ ≤ v := by
          have := mul_nonneg hvNext hQpos.le
          rw [h.divisor, hv, hQ]
          linarith
  have hlt : qHat * v < (q + 2) * v := by
    calc qHat * v = (qHat * vTop * B + qHat * vNext) * Q + qHat * vRest := by
          rw [h.divisor, hv, hQ]
          ring
      _ ≤ (uTop * B + uNext) * Q + qHat * Q := by
          apply add_le_add
          · apply mul_le_mul_of_nonneg_right _ hQpos.le
            rw [h.estimate]
            linarith
          · exact mul_le_mul_of_nonneg_left hvRestLt.le h.qHat_nonneg
      _ ≤ u + v := by
          rw [h.dividend, hu, hQ]
          linarith
      _ < (q + 2) * v := by
          have := h.lt_quotient
          linarith
  have := lt_of_mul_lt_mul_right hlt h.divisor_pos.le
  omega

end

/-- The digits of a quotient from the most significant one on: each round
divides the limbs from `j` on and leaves their remainder. -/
def divLoop (round : CheckedArray Int → Nat → Option (CheckedArray Int × Int)) :
    Nat → CheckedArray Int → CheckedArray Int → Option (CheckedArray Int × CheckedArray Int)
  | 0, a, q => some (a, q)
  | j + 1, a, q =>
    match round a j with
    | none => none
    | some (a, digit) =>
      match q.set? j digit with
      | none => none
      | some q => divLoop round j a q

/-- A round at `j` divides the `n + 1` limbs from `j` on by `v`. -/
def Divides (base v : Int) (n : Nat)
    (round : CheckedArray Int → Nat → Option (CheckedArray Int × Int))
    (a : CheckedArray Int) (j : Nat) : Prop :=
  ∃ a' digit, round a j = some (a', digit) ∧ SameOutside a a' j (n + 1) ∧
    Digits base a'.cell j (n + 1) ∧ 0 ≤ digit ∧ digit < base ∧
    limbs base a.cell j (n + 1) = digit * v + limbs base a'.cell j (n + 1) ∧
    limbs base a'.cell j (n + 1) < v

theorem divLoop_spec {base v : Int} {n k : Nat} (hbase : 0 < base) (hv : v < base ^ n)
    {round : CheckedArray Int → Nat → Option (CheckedArray Int × Int)} {a q : CheckedArray Int}
    (hround : ∀ now j, now.size = a.size → j < k → now.cell (j + n + 1) = 0 →
      Digits base now.cell j (n + 1) → limbs base now.cell j (n + 1) < v * base →
      Divides base v n round now j) (hdigits : Digits base a.cell 0 (k + n))
    (htop : limbs base a.cell k n < v) (hzero : a.cell (k + n) = 0) (hq : k ≤ q.size) :
    ∃ a' q', divLoop round k a q = some (a', q') ∧ a'.size = a.size ∧ q'.size = q.size ∧
      Digits base a'.cell 0 n ∧ Digits base q'.cell 0 k ∧
      (∀ p, k ≤ p → q'.cell p = q.cell p) ∧
      limbs base a.cell 0 (k + n) = limbs base q'.cell 0 k * v + limbs base a'.cell 0 n ∧
      limbs base a'.cell 0 n < v := by
  induction k generalizing a q with
  | zero =>
    rw [Nat.zero_add] at hdigits
    refine ⟨a, q, rfl, rfl, rfl, hdigits, ?_, fun _ _ => rfl, ?_, htop⟩
    · intro i hi
      exact absurd hi (Nat.not_lt_zero i)
    · simp
  | succ j ih =>
    have hwindow : Digits base a.cell j (n + 1) := hdigits.sub (Nat.zero_le j) (by omega)
    have hbelow : limbs base a.cell j (n + 1) < v * base := by
      have hlow := (hwindow 0 (Nat.succ_pos n)).2
      rw [Nat.add_zero] at hlow
      rw [limbs_cons]
      have := mul_le_mul_of_nonneg_right (Int.add_one_le_of_lt htop) hbase.le
      linarith
    obtain ⟨b, digit, hdivide, ⟨hbsize, hbcell⟩, hbdigits, hdlow, hdhigh, hvalue, hrest⟩ :=
      hround a j rfl (Nat.lt_succ_self j) (by rwa [Nat.add_right_comm]) hwindow hbelow
    have hset : q.set? j digit =
        some { q with cell := Function.update q.cell j digit } := CheckedArray.set?_eq hq _
    have hclear : b.cell (j + n) = 0 := hbdigits.top_eq_zero hbase (hrest.trans hv)
    have hfront : ∀ i, i < j → b.cell i = a.cell i := fun i hi => hbcell i (Or.inl hi)
    have hlower : Digits base b.cell 0 (j + n) := by
      apply Digits.append
      · apply (hdigits.sub le_rfl (by omega) : Digits base a.cell 0 j).congr
        intro i hi
        rw [Nat.zero_add, hfront i hi]
      · rw [Nat.zero_add]
        exact hbdigits.sub le_rfl (by omega)
    have htop' : limbs base b.cell j n < v := by
      rw [limbs_succ, hclear, zero_mul, add_zero] at hrest
      exact hrest
    obtain ⟨a', q', hloop, hasize, hqsize, hadigits, hqdigits, hqcell, hval, hrem⟩ :=
      ih
        (fun now i hnow hi => hround now i (hnow.trans hbsize) (Nat.lt_succ_of_lt hi))
        hlower htop' hclear (q := { q with cell := Function.update q.cell j digit })
        (Nat.le_of_succ_le hq)
    have hdigit : q'.cell j = digit := by
      rw [hqcell j le_rfl]
      exact Function.update_self j digit q.cell
    refine ⟨a', q', ?_, hasize.trans hbsize, hqsize, hadigits, ?_, ?_, ?_, hrem⟩
    · simp only [divLoop, hdivide, hset, hloop]
    · intro i hi
      rcases Nat.lt_succ_iff_lt_or_eq.mp hi with hlt | rfl
      · exact hqdigits i hlt
      · rw [Nat.zero_add, hdigit]
        exact ⟨hdlow, hdhigh⟩
    · intro p hp
      rw [hqcell p (Nat.le_of_succ_le hp)]
      exact Function.update_of_ne (by omega) _ _
    have hsplit : limbs base a.cell 0 (j + 1 + n) =
        limbs base a.cell 0 j + limbs base a.cell j (n + 1) * base ^ j := by
      rw [show j + 1 + n = j + (n + 1) by omega, limbs_add_len, Nat.zero_add]
    have hsplit' : limbs base b.cell 0 (j + n) =
        limbs base b.cell 0 j + limbs base b.cell j n * base ^ j := by
      rw [limbs_add_len, Nat.zero_add]
    have hsame : limbs base b.cell 0 j = limbs base a.cell 0 j := by
      apply limbs_congr
      intro i hi
      rw [Nat.zero_add, hfront i hi]
    have hlast : limbs base b.cell j (n + 1) = limbs base b.cell j n := by
      rw [limbs_succ, hclear, zero_mul, add_zero]
    rw [limbs_succ, Nat.zero_add, hdigit, hsplit, hvalue, hlast]
    rw [hsplit', hsame] at hval
    linear_combination hval

end LongDivision
