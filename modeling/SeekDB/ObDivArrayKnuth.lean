/-
The two versions of algorithm D divide: every quotient digit is the true one
and what is left is the remainder, scaled by the normalising factor.
-/
import SeekDB.ObDivArrayRules

namespace SeekDB.ObDivArray

open Nat Option Function Limbs LongDivision

/-! ### The estimate -/

/-- A normalised divisor of `n` digits. -/
structure Divisor (b : CheckedArray Int) (n : Nat) (v : Int) : Prop where
  size_eq : b.size = remBufferSize
  pos : 0 < n
  le_size : n ≤ remBufferSize
  digits : Digits base b.cell 0 n
  value : limbs base b.cell 0 n = v
  normalised : base ≤ 2 * b.cell (n - 1)

/-- The digits that a round at `j` divides. -/
structure Dividend (a : CheckedArray Int) (n j : Nat) (v u : Int) : Prop where
  size_eq : a.size = remBufferSize
  inside : j + n < remBufferSize
  digits : Digits base a.cell j (n + 1)
  value : limbs base a.cell j (n + 1) = u
  below : u < v * base

section

variable {b a : CheckedArray Int} {n j : Nat} {v u : Int}

theorem Divisor.value_pos (hb : Divisor b n v) : 0 < v := by
  obtain ⟨k, rfl⟩ : ∃ k, n = k + 1 := ⟨n - 1, by have := hb.pos; omega⟩
  have hlow : Digits base b.cell 0 k := fun i hi => hb.digits i (lt_succ_of_lt hi)
  have htop : 0 < b.cell k := by
    have := hb.normalised
    have := base_pos
    rw [Nat.add_sub_cancel] at *
    omega
  rw [← hb.value, limbs_succ, Nat.zero_add]
  have := hlow.limbs_nonneg base_pos.le
  have := mul_pos htop (pow_pos base_pos k)
  omega

theorem Divisor.value_lt (hb : Divisor b n v) : v < base ^ n :=
  hb.value ▸ hb.digits.limbs_lt base_pos.le

theorem Dividend.nonneg (ha : Dividend a n j v u) : 0 ≤ u :=
  ha.value ▸ ha.digits.limbs_nonneg base_pos.le

theorem Dividend.cell (ha : Dividend a n j v u) {i : Nat} (hi : i ≤ n) :
    0 ≤ a.cell (j + i) ∧ a.cell (j + i) < base := ha.digits i (lt_succ_of_le hi)

theorem Dividend.get? (ha : Dividend a n j v u) {i : Nat} (hi : i ≤ j + n) :
    a.get? i = some (a.cell i) := by
  have hsize := ha.size_eq
  have hinside := ha.inside
  exact CheckedArray.get?_eq (by omega)

theorem estimate_of_leading {k : Nat} (hb : Divisor b (k + 1) v) (ha : Dividend a (k + 1) j v u) :
    Estimate base (base ^ k) v (b.cell k) (limbs base b.cell 0 k) u
      (a.cell (j + (k + 1)) * base + a.cell (j + k)) (limbs base a.cell j k) (u / v)
      ((a.cell (j + (k + 1)) * base + a.cell (j + k)) / b.cell k)
      ((a.cell (j + (k + 1)) * base + a.cell (j + k)) % b.cell k) := by
  have hbase : (4 : Int) ≤ base := by decide
  have hnorm := hb.normalised
  rw [Nat.add_sub_cancel] at hnorm
  have htop : 0 < b.cell k := by omega
  have hblow : Digits base b.cell 0 k := fun i hi => hb.digits i (lt_succ_of_lt hi)
  have halow : Digits base a.cell j k := fun i hi => ha.digits i (by omega)
  have hvpos := hb.value_pos
  refine {
    base := hbase
    place := pow_pos base_pos k
    divisor := ?_
    vLow_nonneg := hblow.limbs_nonneg base_pos.le
    vLow_lt := hblow.limbs_lt base_pos.le
    dividend := ?_
    uLow_nonneg := halow.limbs_nonneg base_pos.le
    uLow_lt := halow.limbs_lt base_pos.le
    nonneg := ha.nonneg
    below := ha.below
    normalised := hnorm
    estimate := ?_
    rHat_nonneg := Int.emod_nonneg _ htop.ne'
    rHat_lt := Int.emod_lt_of_pos _ htop
    quotient_le := Int.ediv_mul_le u hvpos.ne'
    lt_quotient := Int.lt_ediv_add_one_mul_self u hvpos }
  · rw [← hb.value, limbs_succ, Nat.zero_add]
    ring
  · rw [← ha.value, limbs_succ, limbs_succ, pow_succ]
    ring
  · have hsplit := Int.mul_ediv_add_emod (a.cell (j + (k + 1)) * base + a.cell (j + k))
      (b.cell k)
    linarith

theorem estimate_spec (hb : Divisor b n v) (ha : Dividend a n j v u) :
    ∃ qq, estimate b a n j = some qq ∧ u / v ≤ qq ∧ qq ≤ u / v + 1 ∧
      (a.cell (j + n) * base + a.cell (j + n - 1) < b.cell (n - 1) → qq = 0) := by
  obtain ⟨k, rfl⟩ : ∃ k, n = k + 1 := ⟨n - 1, by have := hb.pos; omega⟩
  have hest := estimate_of_leading hb ha
  obtain ⟨hhigh0, hhigh⟩ := ha.cell (Nat.le_refl (k + 1))
  obtain ⟨hlow0, hlow⟩ := ha.cell (le_succ k)
  have hgetHigh := ha.get? (Nat.le_refl (j + (k + 1)))
  have hgetLow := ha.get? (by omega : j + k ≤ j + (k + 1))
  have hbsize := hb.size_eq
  have hble := hb.le_size
  have hgetTop : b.get? k = some (b.cell k) := CheckedArray.get?_eq (by omega)
  have htop := hb.normalised
  have htopLt := (hb.digits k (lt_succ_self k)).2
  have hquot := hest.quotient_lt
  have hquot0 := hest.quotient_nonneg
  have hle := hest.le_qHat
  have hbound := hest.qHat_le_base_succ
  rw [Nat.zero_add] at htopLt
  simp only [Nat.add_sub_cancel, show j + (k + 1) - 1 = j + k by omega] at htop ⊢
  have hvalue : 0 ≤ a.cell (j + (k + 1)) * base + a.cell (j + k) ∧
      a.cell (j + (k + 1)) * base + a.cell (j + k) ≤ 4 * base * base := by
    simp only [base] at hhigh hlow ⊢
    omega
  have hne : b.cell k ≠ 0 := by
    omega
  simp only [estimate, Nat.add_sub_cancel, show j + (k + 1) - 1 = j + k by omega,
    hgetHigh, hgetLow, hgetTop, bind_some]
  generalize a.cell (j + (k + 1)) * base + a.cell (j + k) = value at *
  have hsmall := fun hlt : value < b.cell k => Int.ediv_eq_zero_of_lt hvalue.1 hlt
  have hsigned : signed 64 value = some value := signed64_eq (by simp only [base]; omega) hvalue.2
  simp only [hsigned, bind_some, if_neg hne, Int.tdiv_eq_ediv_of_nonneg hvalue.1]
  have hrest : value - value / b.cell k * b.cell k = value % b.cell k := by
    have := Int.mul_ediv_add_emod value (b.cell k)
    linarith
  rw [hrest]
  by_cases hfull : value / b.cell k = base
  · refine ⟨value / b.cell k - 1, by rw [if_pos hfull], by omega, ?_, ?_⟩
    · have := hest.qHat_le
      omega
    · intro hlt
      omega
  rw [if_neg hfull]
  rcases k with _ | k
  · have hexact := hest.exact (pow_zero base)
    exact ⟨_, rfl, hexact.ge, by omega, hsmall⟩
  -- The test with the next digit decides whether the estimate is lowered.
  obtain ⟨hnext0, hnext⟩ := hb.digits k (by omega)
  obtain ⟨hthird0, hthird⟩ := ha.cell (by omega : k ≤ k + 1 + 1)
  rw [Nat.zero_add] at hnext0 hnext
  have hgetNext : b.get? (k + 1 + 1 - 2) = some (b.cell k) := by
    exact CheckedArray.get?_eq (by omega)
  have hgetThird : a.get? (j + (k + 1 + 1) - 2) = some (a.cell (j + k)) := by
    exact ha.get? (by omega)
  have hrr0 := hest.rHat_nonneg
  have hrr := hest.rHat_lt
  have hprod0 : 0 ≤ value / b.cell (k + 1) * b.cell k := mul_nonneg hest.qHat_nonneg hnext0
  have hprod : value / b.cell (k + 1) * b.cell k ≤ (base + 1) * base :=
    mul_le_mul hbound hnext.le hnext0 (by decide)
  have hsigned : signed 64 (value / b.cell (k + 1) * b.cell k) =
      some (value / b.cell (k + 1) * b.cell k) := by
    simp only [base] at hprod
    exact signed64_eq (by simp only [base]; omega) (by simp only [base]; omega)
  have hsigned' : signed 64 (base * (value % b.cell (k + 1)) + a.cell (j + k)) =
      some (base * (value % b.cell (k + 1)) + a.cell (j + k)) := by
    simp only [base] at hthird htopLt
    exact signed64_eq (by simp only [base]; omega) (by simp only [base]; omega)
  have hblow : Digits base b.cell 0 k := fun i hi => hb.digits i (by omega)
  have halow : Digits base a.cell j k := fun i hi => ha.digits i (by omega)
  have hpow : base ^ (k + 1) = base * base ^ k := by ring
  have hbsplit : limbs base b.cell 0 (k + 1) = b.cell k * base ^ k + limbs base b.cell 0 k := by
    rw [limbs_succ, Nat.zero_add]
    ring
  have hasplit : limbs base a.cell j (k + 1) =
      a.cell (j + k) * base ^ k + limbs base a.cell j k := by
    rw [limbs_succ]
    ring
  simp only [if_pos (by omega : 2 ≤ k + 1 + 1), hgetNext, hgetThird, bind_some,
    hsigned, hsigned']
  refine ⟨_, rfl, ?_⟩
  split_ifs with htest
  · have hless := hest.lt_of_test hpow hbsplit hasplit (hblow.limbs_nonneg base_pos.le)
      (halow.limbs_lt base_pos.le) htest
    refine ⟨by omega, by have := hest.qHat_le; omega, ?_⟩
    intro hlt
    omega
  · have hless := hest.le_of_test hpow hbsplit hasplit (hblow.limbs_lt base_pos.le) hnext0
      (halow.limbs_nonneg base_pos.le) (hblow.limbs_nonneg base_pos.le) (not_lt.mp htest)
    exact ⟨hle, hless, hsmall⟩

/-! ### The round of `knuth_div` -/

theorem copyTo_spec (junk : Nat → Int) (ha : Dividend a n j v u) (hn : n + 1 ≤ remBufferSize) :
    ∃ ct, copyTo a j (j + n + 1) junk = some ct ∧ ct.len = n + 1 ∧ ct.Holds u := by
  have hsize := ha.size_eq
  have hinside := ha.inside
  have hlen : j + n + 1 - j = n + 1 := by omega
  have hcell : ∀ i, i < n + 1 →
      (if 0 + i < n + 1 then a.cell (j + (0 + i)) else junk (0 + i)) = a.cell (j + i) := by
    intro i hi
    rw [Nat.zero_add, if_pos hi]
  refine ⟨⟨n + 1, fresh fun p => if p < n + 1 then a.cell (j + p) else junk p⟩, ?_, rfl, rfl,
    ha.digits.congr hcell, ?_⟩
  · rw [copyTo, hlen, if_pos ⟨by omega, hn⟩]
  · rw [← ha.value]
    exact limbs_congr hcell

/-- The `n + 1` digits copied back; a further one was zero and stays zero. -/
theorem copyFrom_spec {x : ObDivArray} {r : Int} (ha : Dividend a n j v u)
    (hx : x.digits.size = remBufferSize) (hdigits : Digits base x.digits.cell 0 (n + 1))
    (hvalue : limbs base x.digits.cell 0 (n + 1) = r)
    (hlen : x.len = n + 1 ∨ x.len = n + 2 ∧ j + n + 1 < remBufferSize ∧
      x.digits.cell (n + 1) = 0 ∧ a.cell (j + n + 1) = 0) :
    ∃ a', copyFrom a x j = some a' ∧ SameOutside a a' j (n + 1) ∧
      Digits base a'.cell j (n + 1) ∧ limbs base a'.cell j (n + 1) = r := by
  have hsize := ha.size_eq
  have hinside := ha.inside
  have hcell : ∀ i, i < n + 1 →
      (if j ≤ j + i ∧ j + i < j + x.len then x.digits.cell (j + i - j) else a.cell (j + i)) =
        x.digits.cell (0 + i) := by
    intro i hi
    rw [if_pos ⟨by omega, by omega⟩]
    congr 1
    omega
  refine ⟨⟨a.size, fun p => if j ≤ p ∧ p < j + x.len then x.digits.cell (p - j) else a.cell p⟩,
    ?_, ⟨rfl, ?_⟩, hdigits.congr hcell, ?_⟩
  · rw [copyFrom, if_pos ⟨by omega, by omega⟩]
  · intro p hp
    simp only
    by_cases hwritten : j ≤ p ∧ p < j + x.len
    · rw [if_pos hwritten]
      rcases hlen with hlen | ⟨hlen, -, hxzero, hazero⟩
      · omega
      · obtain rfl : p = j + n + 1 := by omega
        rw [show j + n + 1 - j = n + 1 by omega, hxzero, hazero]
    · rw [if_neg hwritten]
  · rw [← hvalue]
    exact limbs_congr hcell

theorem remainder_bounds (hv : 0 < v) : 0 ≤ u - u / v * v ∧ u - u / v * v < v := by
  have hlow := Int.ediv_mul_le u hv.ne'
  have hhigh := Int.lt_ediv_add_one_mul_self u hv
  constructor <;> linarith

theorem quotient_bounds (hv : 0 < v) (ha : Dividend a n j v u) : 0 ≤ u / v ∧ u / v < base := by
  have hbelow := ha.below
  rw [mul_comm] at hbelow
  exact ⟨Int.ediv_nonneg ha.nonneg hv.le, Int.ediv_lt_of_lt_mul hv hbelow⟩

theorem knuthRound_divides {b : ObDivArray} (junk : Nat → Int) (hbv : b.Holds v) (hblen : b.len = n)
    (hb : Divisor b.digits n v) (hn : n + 1 < remBufferSize) (ha : Dividend a n j v u)
    (hroom : (j + n + 1 < remBufferSize ∧ a.cell (j + n + 1) = 0) ∨
      a.cell (j + n) * base + a.cell (j + n - 1) < b.digits.cell (n - 1)) :
    Divides base v n (knuthRound b n junk) a j := by
  have hv := hb.value_pos
  obtain ⟨qq, hestimate, hlow, hhigh, hzero⟩ := estimate_spec hb ha
  obtain ⟨hq0, hq⟩ := quotient_bounds hv ha
  obtain ⟨hr0, hr⟩ := @remainder_bounds v u hv
  obtain ⟨ct, hcopy, hctlen, hct⟩ := copyTo_spec junk ha hn.le
  obtain ⟨product, hmul, hproduct, hplen⟩ := @Holds.mulTo b v qq junk hbv (by omega) (by omega)
    (by omega)
  have hvn : v < base ^ (n + 1) :=
    hb.value_lt.trans_le (pow_le_pow_right₀ (by decide) (le_succ n))
  rcases sub_spec junk hct hproduct hctlen (by omega) hn with
    ⟨hle, cf, hsub, hcflen, hcf⟩ | ⟨hlt, cf, hsub, hcflen, hcfsize, hcfdigits, hcftop, hcfvalue⟩
  · have hqq : qq = u / v := by
      have : qq ≤ u / v := by
        rw [Int.le_ediv_iff_mul_le hv, mul_comm]
        exact hle
      omega
    have hneg : isNeg cf.digits cf.len = some false :=
      isNeg_of_digits (by rw [hcf.size_eq]; omega) hcf.digits
    have hcfdigits : Digits base cf.digits.cell 0 (n + 1) := hcflen ▸ hcf.digits
    have hcfvalue : limbs base cf.digits.cell 0 (n + 1) = u - v * qq := hcflen ▸ hcf.value
    obtain ⟨a', hback, hsame, hdigits, hvalue⟩ := copyFrom_spec ha hcf.size_eq hcfdigits hcfvalue
      (Or.inl hcflen)
    refine ⟨a', qq, ?_, hsame, hdigits, by omega, by omega, ?_, ?_⟩
    · simp only [knuthRound, hestimate, hcopy, bind_some, hmul, hsub, hneg,
        Bool.false_eq_true, if_false, hback, map_some]
    · rw [ha.value, hvalue]
      ring
    · rw [hvalue, hqq, mul_comm]
      exact hr
  · have hqq : qq = u / v + 1 := by
      have : u / v < qq := by
        rw [Int.ediv_lt_iff_lt_mul hv, mul_comm]
        exact hlt
      omega
    obtain ⟨hinside, htop⟩ := hroom.resolve_right fun hsmall => by
      omega
    have hneg : isNeg cf.digits cf.len = some true := by
      rw [hcflen, isNeg, CheckedArray.get?_eq (by omega), hcftop]
      rfl
    have hsum : u - v * qq + base ^ (n + 1) + v = (u - u / v * v) + base ^ (n + 1) := by
      rw [hqq]
      ring
    obtain ⟨x, hadd, hxlen, hx, hxtop⟩ := addBack_spec hbv (by omega) hcflen hcfsize hn hcfdigits
      hcftop hcfvalue hsum hr0 (hr.trans hvn)
    have hxdigits : Digits base x.digits.cell 0 (n + 1) :=
      hx.digits.sub le_rfl (by omega)
    have hxvalue : limbs base x.digits.cell 0 (n + 1) = u - u / v * v := by
      have := hx.value
      rw [hxlen, limbs_succ, Nat.zero_add, hxtop, zero_mul, add_zero] at this
      exact this
    obtain ⟨a', hback, hsame, hdigits, hvalue⟩ := copyFrom_spec ha hx.size_eq hxdigits hxvalue
      (Or.inr ⟨hxlen, hinside, hxtop, htop⟩)
    refine ⟨a', qq - 1, ?_, hsame, hdigits, by omega, by omega, ?_, ?_⟩
    · simp only [knuthRound, hestimate, hcopy, bind_some, hmul, hsub, hneg, if_true, hadd,
        hback, map_some]
    · rw [ha.value, hvalue, hqq]
      ring
    · rw [hvalue]
      exact hr

/-! ### The round of `knuth_div_v2` -/

section

variable (hb : Divisor b n v) (hbn : b.cell n = 0) (hn : n < remBufferSize)

include hb hbn

theorem Divisor.cell_bounds {i : Nat} (hi : i ≤ n) : 0 ≤ b.cell i ∧ b.cell i < base := by
  rcases Nat.lt_or_eq_of_le hi with hlt | rfl
  · have := hb.digits i hlt
    rwa [Nat.zero_add] at this
  · rw [hbn]
    exact ⟨le_refl 0, base_pos⟩

theorem Divisor.limbs_shift : limbs base (fun i => b.cell (i - j)) j (n + 1) = v := by
  have hshift : limbs base (fun i => b.cell (i - j)) j (n + 1) = limbs base b.cell 0 (n + 1) := by
    apply limbs_congr
    intro i _
    simp only [Nat.add_sub_cancel_left, Nat.zero_add]
  rw [hshift, limbs_succ, Nat.zero_add, hbn, zero_mul, add_zero, hb.value]

theorem d4Sub_spec {qq : Int} (ha : Dividend a n j v u) (hq0 : 0 ≤ qq) (hq : qq ≤ base) :
    ∃ c borrow, carryLoop base (d4SubTerm b qq j) borrowMany (n + 1) j a 0 = some (c, borrow) ∧
      -base ≤ borrow ∧ borrow ≤ 0 ∧ SameOutside a c j (n + 1) ∧ Digits base c.cell j (n + 1) ∧
      limbs base c.cell j (n + 1) + borrow * base ^ (n + 1) = u - qq * v := by
  have hsize := ha.size_eq
  have hinside := ha.inside
  have hbsize := hb.size_eq
  have hstep : ∀ p, j ≤ p → p < j + (n + 1) → CarryStep base (d4SubTerm b qq j) borrowMany
      (fun i => a.cell i - b.cell (i - j) * qq) (fun c => -base ≤ c ∧ c ≤ 0) a p := by
    intro p hjp hp now borrow hnow hcells hborrow
    obtain ⟨halow, hahigh⟩ := ha.cell (by omega : p - j ≤ n)
    rw [add_sub_of_le hjp] at halow hahigh
    obtain ⟨hblow, hbhigh⟩ := hb.cell_bounds hbn (by omega : p - j ≤ n)
    have hprod0 : 0 ≤ b.cell (p - j) * qq := mul_nonneg hblow hq0
    have hprod : b.cell (p - j) * qq ≤ (base - 1) * base :=
      mul_le_mul (by omega) hq hq0 (by decide)
    have hsplit := sub_ediv_nonneg (a.cell p - b.cell (p - j) * qq + borrow)
    have hget : now.get? p = some (a.cell p) := by
      rw [CheckedArray.get?_eq (by omega), hcells p le_rfl]
    have hgetb : b.get? (p - j) = some (b.cell (p - j)) := CheckedArray.get?_eq (by omega)
    simp only
    rw [borrowMany_eq (by omega)]
    refine ⟨?_, hsplit.1, hsplit.2, ?_⟩
    · simp only [base] at hprod hahigh hborrow
      simp only [d4SubTerm, hget, hgetb, bind_some]
      rw [signed64_eq (by simp only [base]; omega) (by simp only [base]; omega),
        bind_some,
        signed64_eq (by simp only [base]; omega) (by simp only [base]; omega),
        bind_some,
        signed64_eq (by simp only [base]; omega) (by simp only [base]; omega)]
    · simp only [base] at hprod hahigh hborrow ⊢
      omega
  obtain ⟨c, borrow, hloop, hborrow, hsame, hdigits, hvalue⟩ :=
    carryLoop_spec hstep (by omega) ⟨by decide, le_refl 0⟩
  refine ⟨c, borrow, hloop, hborrow.1, hborrow.2, hsame, hdigits, ?_⟩
  rw [limbs_sub, limbs_mul, hb.limbs_shift hbn, ha.value, add_zero] at hvalue
  rw [hvalue]
  ring

include hn

theorem d4Add_spec {c : CheckedArray Int} {top r : Int} (hinside : j + n < remBufferSize)
    (hsize : c.size = remBufferSize) (hdigits : Digits base c.cell j n)
    (htop : c.cell (j + n) = top) (hr : 0 ≤ r) (hrlt : r < base ^ n)
    (hvalue : limbs base c.cell j n + v + top * base ^ n = r) :
    ∃ x, carryLoop base (d4AddTerm b j) carryUp (n + 1) j c 0 = some (x, 0) ∧
      SameOutside c x j (n + 1) ∧ Digits base x.cell j (n + 1) ∧
      limbs base x.cell j (n + 1) = r := by
  have hbsize := hb.size_eq
  have hstep : ∀ p, j ≤ p → p < j + n → CarryStep base (d4AddTerm b j) carryUp
      (fun i => c.cell i + b.cell (i - j)) (fun c => 0 ≤ c ∧ c ≤ 1) c p := by
    intro p hjp hp now carry hnow hcells hcarry
    obtain ⟨hclow, hchigh⟩ := hdigits (p - j) (by omega)
    rw [add_sub_of_le hjp] at hclow hchigh
    obtain ⟨hblow, hbhigh⟩ := hb.cell_bounds hbn (by omega : p - j ≤ n)
    have hsplit := sub_ediv_nonneg (c.cell p + b.cell (p - j) + carry)
    have hget : now.get? p = some (c.cell p) := by
      rw [CheckedArray.get?_eq (by omega), hcells p le_rfl]
    have hgetb : b.get? (p - j) = some (b.cell (p - j)) := CheckedArray.get?_eq (by omega)
    simp only
    rw [carryUp_eq (by omega)]
    refine ⟨?_, hsplit.1, hsplit.2, ?_⟩
    · simp only [base] at hchigh hbhigh
      simp only [d4AddTerm, hget, hgetb, bind_some]
      rw [signed64_eq (by simp only [base]; omega) (by simp only [base]; omega), add_assoc]
    · simp only [base] at hchigh hbhigh ⊢
      omega
  obtain ⟨y, carry, hloop, hcarry, ⟨hysize, hycells⟩, hydigits, hyvalue⟩ :=
    carryLoop_spec hstep (by omega) ⟨le_refl 0, by decide⟩
  have hshift : limbs base (fun i => b.cell (i - j)) j n = v := by
    have hwhole := @Divisor.limbs_shift b n j v hb hbn
    rw [limbs_succ] at hwhole
    simpa [hbn] using hwhole
  rw [limbs_add, hshift, add_zero] at hyvalue
  obtain ⟨hrest, hclear⟩ := eq_of_add_mul (hydigits.limbs_nonneg base_pos.le)
    (hydigits.limbs_lt base_pos.le) hr hrlt
    (by linear_combination hyvalue + hvalue :
      limbs base y.cell j n + (top + carry) * base ^ n = r + 0 * base ^ n)
  have hytop : y.cell (j + n) = top := by rw [hycells _ (Or.inr le_rfl), htop]
  have hynsize : j + n < y.size := by omega
  have hterm : d4AddTerm b j y (j + n) carry = some 0 := by
    have hget : y.get? (j + n) = some top := by rw [CheckedArray.get?_eq hynsize, hytop]
    have hgetb : b.get? (j + n - j) = some 0 := by
      rw [Nat.add_sub_cancel_left, CheckedArray.get?_eq (by omega), hbn]
    simp only [d4AddTerm, hget, hgetb, bind_some, zero_add, hclear]
    rfl
  have hbelow : ∀ i, i < n → Function.update y.cell (j + n) 0 (j + i) = y.cell (j + i) :=
    fun i hi => update_of_ne (by omega) _ _
  refine ⟨⟨y.size, Function.update y.cell (j + n) 0⟩, ?_, ⟨hysize, ?_⟩, ?_, ?_⟩
  · rw [carryLoop_snoc, hloop, bind_some, carryLoop_one hterm hynsize]
    rfl
  · intro p hp
    exact (update_of_ne (by omega) _ _).trans (hycells p (by omega))
  · apply Digits.append (hydigits.congr hbelow)
    intro i hi
    obtain rfl : i = 0 := by omega
    simp only [Nat.add_zero, update_self]
    exact ⟨le_refl 0, base_pos⟩
  · rw [limbs_succ, limbs_congr hbelow, hrest]
    simp

theorem knuthD4_spec {qq : Int} (ha : Dividend a n j v u) (hlow : u / v ≤ qq)
    (hhigh : qq ≤ u / v + 1) :
    ∃ x, knuthD4 b n a j qq = some (x, u / v) ∧ SameOutside a x j (n + 1) ∧
      Digits base x.cell j (n + 1) ∧ limbs base x.cell j (n + 1) = u - u / v * v := by
  have hv := hb.value_pos
  have hinside := ha.inside
  obtain ⟨hq0, hq⟩ := quotient_bounds hv ha
  obtain ⟨hr0, hr⟩ := @remainder_bounds v u hv
  obtain ⟨c, borrow, hsub, hborrow, hborrow0, ⟨hcsize, hccells⟩, hcdigits, hcvalue⟩ :=
    d4Sub_spec hb hbn ha (hq0.trans hlow) (by omega)
  have hclow := hcdigits.limbs_nonneg base_pos.le
  have hchigh := hcdigits.limbs_lt base_pos.le
  have hpow : (0 : Int) < base ^ (n + 1) := pow_pos base_pos _
  by_cases hneg : borrow < 0
  · have hless : u < qq * v := by
      have := mul_le_mul_of_nonneg_right (Int.add_one_le_of_lt hneg) hpow.le
      linarith
    have hqq : qq = u / v + 1 := by
      have : u / v < qq := (Int.ediv_lt_iff_lt_mul hv).mpr hless
      omega
    obtain ⟨htop0, htop⟩ := hcdigits n (lt_succ_self n)
    have hget : c.get? (j + n) = some (c.cell (j + n)) :=
      CheckedArray.get?_eq (by rw [hcsize, ha.size_eq]; exact hinside)
    have hsigned : signed 64 (c.cell (j + n) + borrow * base) =
        some (c.cell (j + n) + borrow * base) := by
      simp only [base] at hborrow htop
      exact signed64_eq (by simp only [base]; omega) (by simp only [base]; omega)
    have hset := CheckedArray.set?_eq (by rw [hcsize, ha.size_eq]; exact hinside :
      j + n < c.size) (c.cell (j + n) + borrow * base)
    obtain ⟨lowered, hlowered⟩ : ∃ y, y = (⟨c.size, Function.update c.cell (j + n)
      (c.cell (j + n) + borrow * base)⟩ : CheckedArray Int) := ⟨_, rfl⟩
    have hbelow : ∀ i, i < n → lowered.cell (j + i) = c.cell (j + i) := by
      intro i hi
      rw [hlowered]
      exact update_of_ne (by omega) _ _
    have hvalue : limbs base lowered.cell j n + v +
        (c.cell (j + n) + borrow * base) * base ^ n = u - u / v * v := by
      rw [limbs_congr hbelow]
      rw [limbs_succ, hqq, pow_succ] at hcvalue
      linear_combination hcvalue
    obtain ⟨x, hadd, ⟨hxsize, hxcells⟩, hxdigits, hxvalue⟩ := @d4Add_spec b n j v hb hbn hn
      lowered _ _ hinside (by rw [hlowered, hcsize, ha.size_eq])
      ((hcdigits.sub le_rfl (by omega) : Digits base c.cell j n).congr hbelow)
      (by rw [hlowered]; exact update_self _ _ _) hr0 (hr.trans hb.value_lt) hvalue
    refine ⟨x, ?_, ⟨?_, ?_⟩, hxdigits, hxvalue⟩
    · rw [← hlowered] at hset
      simp only [knuthD4, hsub, if_pos hneg, hget, bind_some, hsigned, hset, hadd, map_some]
      rw [hqq, Int.add_sub_cancel]
    · rw [hxsize, hlowered, hcsize]
    · intro p hp
      rw [hxcells p hp, hlowered]
      exact (update_of_ne (by omega) _ _).trans (hccells p hp)
  · obtain rfl : borrow = 0 := by omega
    rw [zero_mul, add_zero] at hcvalue
    have hqq : qq = u / v := by
      have : qq ≤ u / v := (Int.le_ediv_iff_mul_le hv).mpr (by linarith)
      omega
    refine ⟨c, ?_, ⟨hcsize, hccells⟩, hcdigits, ?_⟩
    · simp only [knuthD4, hsub, hneg, if_false]
      rw [hqq]
    · rw [hcvalue, hqq]

theorem knuthRoundV2_divides (ha : Dividend a n j v u) :
    Divides base v n (knuthRoundV2 b n) a j := by
  have hv := hb.value_pos
  obtain ⟨hq0, hq⟩ := quotient_bounds hv ha
  obtain ⟨hr0, hr⟩ := @remainder_bounds v u hv
  obtain ⟨qq, hestimate, hlow, hhigh, -⟩ := estimate_spec hb ha
  by_cases hzero : qq = 0
  · have hquot : u / v = 0 := by omega
    refine ⟨a, qq, by simp only [knuthRoundV2, hestimate, if_pos hzero], ⟨rfl, fun _ _ => rfl⟩,
      ha.digits, by omega, by omega, ?_, ?_⟩
    · rw [hzero, zero_mul, zero_add]
    · rw [ha.value]
      rw [hquot, zero_mul, sub_zero] at hr
      exact hr
  · obtain ⟨x, hd4, hsame, hdigits, hvalue⟩ := knuthD4_spec hb hbn hn ha hlow hhigh
    refine ⟨x, u / v, by simp only [knuthRoundV2, hestimate, if_neg hzero, hd4], hsame, hdigits,
      hq0, hq, ?_, ?_⟩
    · rw [ha.value, hvalue]
      ring
    · rw [hvalue]
      exact hr

end

end

/-! ### The whole division -/

theorem clearAbove_spec {x : ObDivArray} {w : Int} {k : Nat} (hx : x.Holds w)
    (hlen : x.len = k ∨ x.len = k + 1) (hk : k + 1 < remBufferSize) :
    ∃ y, ((clearAbove x (k + 1)).bind fun y => clearAbove y k) = some y ∧
      y.digits.size = remBufferSize ∧ Digits base y.digits.cell 0 (k + 2) ∧
      limbs base y.digits.cell 0 (k + 2) = w ∧ y.digits.cell (k + 1) = 0 := by
  have hsize := hx.size_eq
  have hset := CheckedArray.set?_eq (by omega : k + 1 < x.digits.size) (0 : Int)
  have hfirst : clearAbove x (k + 1) =
      some ⟨x.len, ⟨x.digits.size, Function.update x.digits.cell (k + 1) 0⟩⟩ := by
    rw [clearAbove, if_pos (by omega), hset]
    rfl
  obtain ⟨y, hy, hysize, hycells⟩ : ∃ y,
      ((clearAbove x (k + 1)).bind fun y => clearAbove y k) = some y ∧
      y.digits.size = remBufferSize ∧
      ∀ p, p < k + 2 → y.digits.cell p = x.place p := by
    rw [hfirst, bind_some]
    rcases hlen with hlen | hlen
    · have hset' := @CheckedArray.set?_eq Int
        ⟨x.digits.size, Function.update x.digits.cell (k + 1) 0⟩ k (by simp only; omega) 0
      refine ⟨⟨x.len, ⟨x.digits.size,
        Function.update (Function.update x.digits.cell (k + 1) 0) k 0⟩⟩, ?_, hsize, ?_⟩
      · rw [clearAbove, if_pos (by simp only; omega), hset']
        rfl
      · intro p hp
        rw [place]
        simp only [update_apply]
        split_ifs <;> first | rfl | omega
    · refine ⟨⟨x.len, ⟨x.digits.size, Function.update x.digits.cell (k + 1) 0⟩⟩, ?_, hsize, ?_⟩
      · rw [clearAbove, if_neg (by simp only; omega)]
      · intro p hp
        rw [place]
        simp only [update_apply]
        split_ifs <;> first | rfl | omega
  refine ⟨y, hy, hysize, ?_, ?_, ?_⟩
  · intro i hi
    rw [Nat.zero_add, hycells i hi]
    exact hx.place_bounds i
  · rw [← hx.limbs_place (by omega : x.len ≤ k + 2)]
    apply limbs_congr
    intro i hi
    rw [Nat.zero_add, hycells i hi]
  · rw [hycells (k + 1) (lt_succ_self _), place, if_neg (by omega)]

/-- The operands after step D1. -/
structure Normalised (n k : Nat) (v w : Int) (x : CheckedArray Int) (y : ObDivArray) : Prop where
  size_eq : x.size = remBufferSize
  digits : Digits base x.cell 0 (k + 2)
  value : limbs base x.cell 0 (k + 2) = w
  above : x.cell (k + 1) = 0
  top_lt : x.cell k < y.digits.cell (n - 1)
  len_eq : y.len = n
  holds : y.Holds v
  divisor : Divisor y.digits n v

theorem normalise_spec {a b : ObDivArray} {w v : Int} (ha : a.Holds w) (hb : b.Holds v)
    (hpos : 0 < b.len) (htop : b.digits.cell (b.len - 1) ≠ 0) (hlen : b.len ≤ a.len)
    (hroom : a.len + 1 < remBufferSize) :
    ∃ d x y, normaliser b = some d ∧ 0 < d ∧ d ≤ base ∧ normalise a b = some (x, y) ∧
      Normalised b.len a.len (v * d) (w * d) x.digits y := by
  obtain ⟨k, hk⟩ : ∃ k, b.len = k + 1 := ⟨b.len - 1, by omega⟩
  have hbsize := hb.size_eq
  obtain ⟨htop0, htopLt⟩ := hb.cell (by omega : k < b.len)
  simp only [hk, Nat.add_sub_cancel] at htop
  have htop1 : 1 ≤ b.digits.cell k := by omega
  have hbase : (2 : Int) ∣ base := by decide
  generalize hd : base / (b.digits.cell k + 1) = d
  have hhalf := half_le_normalised htop1 htopLt hbase
  rw [hd] at hhalf
  have hdle : 2 * d ≤ base := by
    have hmul : (b.digits.cell k + 1) * d ≤ base := by
      rw [← hd]
      exact Int.mul_ediv_self_le (by omega)
    have hd0 : 0 ≤ d := by
      rw [← hd]
      exact Int.ediv_nonneg base_pos.le (by omega)
    have := mul_le_mul_of_nonneg_right (by omega : 2 ≤ b.digits.cell k + 1) hd0
    omega
  have hdpos : 0 < d := by
    by_contra hnot
    have := mul_nonpos_of_nonneg_of_nonpos htop0 (not_lt.mp hnot)
    omega
  have hnormaliser : normaliser b = some d := by
    rw [normaliser, hk, Nat.add_sub_cancel, CheckedArray.get?_eq (by omega), map_some,
      Int.tdiv_eq_ediv_of_nonneg base_pos.le, hd]
  obtain ⟨scaled, hscale, hscaled, hslen, -⟩ := ha.mulInPlace hdpos.le (by omega) (by omega)
  obtain ⟨y, hymul, hy, hylen, -⟩ := hb.mulInPlace hdpos.le (by omega) (by omega)
  obtain ⟨x, hclear, hxsize, hxdigits, hxvalue, hxabove⟩ := clearAbove_spec hscaled
    (hslen.imp_right And.left) hroom
  -- The divisor keeps its length.
  have hvlow : b.digits.cell k * base ^ k ≤ v ∧ v < (b.digits.cell k + 1) * base ^ k := by
    have hlow : Digits base b.digits.cell 0 k := hb.digits.sub le_rfl (by omega)
    have hvalue := hb.value
    rw [hk, limbs_succ, Nat.zero_add] at hvalue
    have := hlow.limbs_nonneg base_pos.le
    have := hlow.limbs_lt base_pos.le
    constructor <;> linarith
  have hsmall : v * d < base ^ b.len := by
    rw [hk, pow_succ, mul_comm (base ^ k), ← hd]
    exact normalised_lt (by omega) (pow_nonneg base_pos.le k) hvlow.2 (by rw [hd]; exact hdpos)
  have hylen' : y.len = b.len := by
    rcases hylen with hylen | ⟨-, hlarge⟩
    · exact hylen
    · omega
  have hytop : base ≤ 2 * y.digits.cell k := by
    have hlow : Digits base y.digits.cell 0 k := hy.digits.sub le_rfl (by omega)
    have hvalue := hy.value
    rw [hylen', hk, limbs_succ, Nat.zero_add] at hvalue
    have hlt := hlow.limbs_lt base_pos.le
    have hprod : b.digits.cell k * d * base ^ k < (y.digits.cell k + 1) * base ^ k := by
      have := mul_le_mul_of_nonneg_right hvlow.1 hdpos.le
      linarith
    have := lt_of_mul_lt_mul_right hprod (pow_nonneg base_pos.le k)
    omega
  have hxtop : x.digits.cell a.len < y.digits.cell k := by
    have hlow : Digits base x.digits.cell 0 a.len := hxdigits.sub le_rfl (by omega)
    have hnonneg := hlow.limbs_nonneg base_pos.le
    have hvalue := hxvalue
    rw [limbs_succ, limbs_succ, Nat.zero_add, Nat.zero_add, hxabove, zero_mul, add_zero] at hvalue
    have hlt : x.digits.cell a.len * base ^ a.len < d * base ^ a.len := by
      have := mul_lt_mul_of_pos_right ha.lt hdpos
      linarith
    have := lt_of_mul_lt_mul_right hlt (pow_nonneg base_pos.le a.len)
    omega
  refine ⟨d, x, y, hnormaliser, hdpos, by omega, ?_, hxsize, hxdigits, hxvalue, hxabove, ?_,
    hylen', hy, hy.size_eq, hpos, by omega, ?_, ?_, ?_⟩
  · obtain ⟨cleared, hfirst, hsecond⟩ := bind_eq_some_iff.mp hclear
    simp only [normalise, hnormaliser, bind_some, hscale, hymul, hfirst, hsecond, map_some]
  · rwa [hk, Nat.add_sub_cancel]
  · rw [← hylen']
    exact hy.digits
  · rw [← hylen']
    exact hy.value
  · rwa [hk, Nat.add_sub_cancel]

/-- The rounds of a normalised division leave the digits of the quotient and
the remainder. -/
theorem divLoop_divides {round : CheckedArray Int → Nat → Option (CheckedArray Int × Int)}
    {n k : Nat} {v w : Int} {x q : CheckedArray Int} {y : ObDivArray} (h : Normalised n k v w x y)
    (hnk : n ≤ k) (hroom : k + 1 < remBufferSize) (hq : q.size = remBufferSize)
    (hround : ∀ now j u, Dividend now n j v u →
      ((j + n + 1 < remBufferSize ∧ now.cell (j + n + 1) = 0) ∨
        now.cell (j + n) * base + now.cell (j + n - 1) < y.digits.cell (n - 1)) →
      Divides base v n round now j) :
    ∃ s q', divLoop round (k - n + 1 + 1) x q = some (s, q') ∧ s.size = remBufferSize ∧
      q'.size = remBufferSize ∧ Digits base s.cell 0 n ∧ Digits base q'.cell 0 (k - n + 1) ∧
      limbs base q'.cell 0 (k - n + 1) = w / v ∧ limbs base s.cell 0 n = w % v := by
  have hv := h.divisor.value_pos
  have hnpos := h.divisor.pos
  obtain ⟨m, hm⟩ : ∃ m, k - n + 1 = m := ⟨_, rfl⟩
  have hmn : m + n = k + 1 := by omega
  rw [hm]
  -- The first round sees less than the divisor.
  have hwindow : Digits base x.cell m (n + 1) := h.digits.sub (Nat.zero_le m) (by omega)
  have hless : limbs base x.cell m (n + 1) < v := by
    obtain ⟨i, rfl⟩ : ∃ i, n = i + 1 := ⟨n - 1, by omega⟩
    have hlow : Digits base x.cell m i := hwindow.sub le_rfl (by omega)
    have hylow : Digits base y.digits.cell 0 i :=
      h.divisor.digits.sub le_rfl (by omega)
    have htop := h.top_lt
    have hvalue := h.divisor.value
    rw [limbs_succ, Nat.zero_add] at hvalue
    rw [Nat.add_sub_cancel] at htop
    rw [limbs_succ, limbs_succ, show m + (i + 1) = k + 1 by omega, h.above,
      show m + i = k by omega, zero_mul, add_zero]
    have hstep := mul_le_mul_of_nonneg_right (Int.add_one_le_of_lt htop)
      (pow_nonneg base_pos.le i)
    have := hlow.limbs_lt base_pos.le
    have := hylow.limbs_nonneg base_pos.le
    linarith
  have hfirst : Dividend x n m v (limbs base x.cell m (n + 1)) := by
    refine ⟨h.size_eq, by omega, hwindow, rfl, ?_⟩
    have := mul_le_mul_of_nonneg_left (by decide : (1 : Int) ≤ base) hv.le
    linarith
  obtain ⟨c, digit, hdivide, ⟨hcsize, hccells⟩, hcdigits, hdlow, -, hcvalue, hcrest⟩ :=
    hround x m _ hfirst (Or.inr (by
      rw [hmn, h.above, zero_mul, zero_add, Nat.add_sub_cancel]
      exact h.top_lt))
  have hzero : digit = 0 := by
    by_contra hne
    have := mul_le_mul_of_nonneg_right (by omega : 1 ≤ digit) hv.le
    have := hcdigits.limbs_nonneg base_pos.le
    linarith
  rw [hzero, zero_mul, zero_add] at hcvalue
  have hclear : c.cell (m + n) = 0 :=
    hcdigits.top_eq_zero base_pos (hcrest.trans h.divisor.value_lt)
  have hcsplit : limbs base c.cell m (n + 1) = limbs base c.cell m n := by
    rw [limbs_succ, hclear, zero_mul, add_zero]
  have hfront : ∀ i, i < m → c.cell (0 + i) = x.cell (0 + i) :=
    fun i hi => hccells _ (Or.inl (by omega))
  have hset := CheckedArray.set?_eq (by omega : m < q.size) (0 : Int)
  have hcdigits' : Digits base c.cell 0 (m + n) := by
    apply Digits.append
    · exact (h.digits.sub le_rfl (by omega) : Digits base x.cell 0 m).congr hfront
    · rw [Nat.zero_add]
      exact hcdigits.sub le_rfl (by omega)
  have htotal : limbs base c.cell 0 (m + n) = w := by
    rw [← h.value, show k + 2 = m + (n + 1) by omega, limbs_add_len, limbs_add_len,
      Nat.zero_add, limbs_congr hfront, hcvalue, hcsplit]
  obtain ⟨s, q', hloop, hssize, hqsize, hsdigits, hqdigits, -, hvalue, hrest⟩ :=
    divLoop_spec (q := ⟨q.size, Function.update q.cell m 0⟩) base_pos h.divisor.value_lt
      (fun now j hnow hj habove hdigits hbelow =>
        hround now j _ ⟨hnow.trans (hcsize.trans h.size_eq), by omega, hdigits, rfl, hbelow⟩
          (Or.inl ⟨by omega, habove⟩))
      hcdigits' (hcsplit ▸ hcrest) hclear (by simp only; omega)
  have hunique : w / v = limbs base q'.cell 0 m ∧ w % v = limbs base s.cell 0 n :=
    (Int.ediv_emod_unique hv).mpr ⟨by linarith, hsdigits.limbs_nonneg base_pos.le, hrest⟩
  refine ⟨s, q', ?_, hssize.trans (hcsize.trans h.size_eq), hqsize.trans hq, hsdigits, hqdigits,
    hunique.1.symm, hunique.2.symm⟩
  rw [divLoop, hdivide]
  simp only [hzero, hset, hloop]

theorem copyTo_zero_spec {s : CheckedArray Int} {n : Nat} {r : Int} (junk : Nat → Int)
    (hsize : s.size = remBufferSize) (hn : n ≤ remBufferSize)
    (hdigits : Digits base s.cell 0 n) (hvalue : limbs base s.cell 0 n = r) :
    ∃ x, copyTo s 0 n junk = some x ∧ x.len = n ∧ x.Holds r := by
  have hcell : ∀ i, i < n →
      (if 0 + i < n then s.cell (0 + (0 + i)) else junk (0 + i)) = s.cell (0 + i) := by
    intro i hi
    rw [Nat.zero_add, Nat.zero_add, if_pos hi]
  refine ⟨⟨n, fresh fun p => if p < n then s.cell (0 + p) else junk p⟩, ?_, rfl, rfl,
    hdigits.congr hcell, ?_⟩
  · rw [copyTo, Nat.sub_zero, if_pos ⟨by omega, hn⟩]
  · rw [← hvalue]
    exact limbs_congr hcell

theorem mul_emod_mul_right {w v d : Int} (hd : 0 < d) : w * d % (v * d) = w % v * d := by
  rw [mul_comm w, mul_comm v, Int.mul_emod_mul_of_pos _ _ hd, mul_comm]

section

variable {a b : ObDivArray} {w v : Int} (ha : a.Holds w) (hb : b.Holds v) (hpos : 0 < b.len)
  (htop : b.digits.cell (b.len - 1) ≠ 0) (hlen : b.len ≤ a.len)
  (hroom : a.len + 1 < remBufferSize)

include ha hb hpos htop hlen hroom

/-- `knuth_div` yields the quotient and the remainder times the normalising factor. -/
theorem knuthDiv_spec (junk : Nat → Int) :
    ∃ d q r, normaliser b = some d ∧ 0 < d ∧ d ≤ base ∧ knuthDiv junk a b = some (q, r) ∧
      q.len = a.len - b.len + 1 ∧ q.Holds (w / v) ∧ r.len = b.len ∧ r.Holds (w % v * d) := by
  obtain ⟨d, x, y, hnormaliser, hd, hdle, hnormalise, h⟩ :=
    normalise_spec ha hb hpos htop hlen hroom
  obtain ⟨s, q, hloop, hssize, hqsize, hsdigits, hqdigits, hqvalue, hsvalue⟩ :=
    divLoop_divides h hlen hroom (q := fresh junk) rfl
      (fun now j u hdividend hcase =>
        knuthRound_divides junk h.holds h.len_eq h.divisor (by omega) hdividend hcase)
  obtain ⟨r, hcopy, hrlen, hr⟩ := copyTo_zero_spec junk hssize (by omega) hsdigits hsvalue
  rw [Int.mul_ediv_mul_of_pos_left w v hd] at hqvalue
  rw [mul_emod_mul_right hd] at hr
  refine ⟨d, ⟨a.len - b.len + 1, q⟩, r, hnormaliser, hd, hdle, ?_, rfl,
    ⟨hqsize, hqdigits, hqvalue⟩, hrlen, hr⟩
  simp only [knuthDiv, if_neg (not_lt.mpr hlen), hnormalise, bind_some, hloop, hcopy, map_some]

/-- `knuth_div_v2` yields the same, in place. -/
theorem knuthDivV2_spec (junk : Nat → Int) :
    ∃ d q r, normaliser b = some d ∧ 0 < d ∧ knuthDivV2 junk a b = some (q, r) ∧
      q.len = a.len - b.len + 1 ∧ q.Holds (w / v) ∧ r.len = b.len ∧ r.Holds (w % v * d) := by
  obtain ⟨d, x, y, hnormaliser, hd, hdle, hnormalise, h⟩ :=
    normalise_spec ha hb hpos htop hlen hroom
  have hysize := h.holds.size_eq
  have hset := CheckedArray.set?_eq (by omega : b.len < y.digits.size) (0 : Int)
  have hbelow : ∀ i, i < b.len →
      Function.update y.digits.cell b.len 0 (0 + i) = y.digits.cell (0 + i) :=
    fun i hi => update_of_ne (by omega) _ _
  have hdivisor : Divisor ⟨y.digits.size, Function.update y.digits.cell b.len 0⟩ b.len (v * d) := by
    refine ⟨hysize, hpos, by omega, h.divisor.digits.congr hbelow, ?_, ?_⟩
    · rw [← h.divisor.value]
      exact limbs_congr hbelow
    · have hsame : Function.update y.digits.cell b.len 0 (b.len - 1) =
          y.digits.cell (b.len - 1) := update_of_ne (by omega) _ _
      exact h.divisor.normalised.trans_eq (congrArg (2 * ·) hsame).symm
  obtain ⟨s, q, hloop, hssize, hqsize, hsdigits, hqdigits, hqvalue, hsvalue⟩ :=
    divLoop_divides h hlen hroom (q := fresh junk) rfl
      (fun now j u hdividend _ =>
        knuthRoundV2_divides hdivisor (update_self _ _ _) (by omega) hdividend)
  obtain ⟨r, hcopy, hrlen, hr⟩ := copyTo_zero_spec junk hssize (by omega) hsdigits hsvalue
  rw [Int.mul_ediv_mul_of_pos_left w v hd] at hqvalue
  rw [mul_emod_mul_right hd] at hr
  refine ⟨d, ⟨a.len - b.len + 1, q⟩, r, hnormaliser, hd, ?_, rfl, ⟨hqsize, hqdigits, hqvalue⟩,
    hrlen, hr⟩
  simp only [knuthDivV2, if_neg (not_lt.mpr hlen), hnormalise, bind_some, hset, hloop,
    hcopy, map_some]

end

theorem divDown_spec {d : Int} {c : CheckedArray Int} {k : Nat} {remainder : Int} (hd : 0 < d)
    (hdle : d ≤ base) (hk : k ≤ c.size) (hdigits : Digits base c.cell 0 k)
    (hlow : 0 ≤ remainder) (hhigh : remainder < d) :
    ∃ x out, divDown d k c remainder = some x ∧ x.size = c.size ∧ Digits base x.cell 0 k ∧
      (∀ p, k ≤ p → x.cell p = c.cell p) ∧ 0 ≤ out ∧ out < d ∧
      remainder * base ^ k + limbs base c.cell 0 k = limbs base x.cell 0 k * d + out := by
  induction k generalizing c remainder with
  | zero =>
    refine ⟨c, remainder, rfl, rfl, ?_, fun _ _ => rfl, hlow, hhigh, by simp⟩
    intro i hi
    exact absurd hi (Nat.not_lt_zero i)
  | succ k ih =>
    obtain ⟨hdigit0, hdigit⟩ := hdigits k (lt_succ_self k)
    rw [Nat.zero_add] at hdigit0 hdigit
    have hget : c.get? k = some (c.cell k) := CheckedArray.get?_eq hk
    have hnext0 : 0 ≤ remainder * base + c.cell k := by
      have := mul_nonneg hlow base_pos.le
      omega
    have hnext : remainder * base + c.cell k < d * base := by
      have := mul_le_mul_of_nonneg_right (Int.add_one_le_of_lt hhigh) base_pos.le
      linarith
    have hsigned : signed 64 (remainder * base + c.cell k) =
        some (remainder * base + c.cell k) := by
      have := mul_le_mul_of_nonneg_right hdle base_pos.le
      simp only [base] at this hnext hnext0
      exact signed64_eq (by simp only [base]; omega) (by simp only [base]; omega)
    generalize hvalue : remainder * base + c.cell k = value at *
    have htdiv : value.tdiv d = value / d := Int.tdiv_eq_ediv_of_nonneg hnext0
    have hquot0 : 0 ≤ value / d := Int.ediv_nonneg hnext0 hd.le
    have hquot : value / d < base := by
      rw [mul_comm] at hnext
      exact Int.ediv_lt_of_lt_mul hd hnext
    have hrem : value - value / d * d = value % d := by
      have := Int.mul_ediv_add_emod value d
      linarith
    have hset := CheckedArray.set?_eq hk (value / d)
    have hbelow : ∀ i, i < k → Function.update c.cell k (value / d) (0 + i) = c.cell (0 + i) :=
      fun i hi => update_of_ne (by omega) _ _
    obtain ⟨x, out, hloop, hsize, hxdigits, hxcells, hout, houtd, heq⟩ :=
      ih (c := ⟨c.size, Function.update c.cell k (value / d)⟩) (le_of_succ_le hk)
        ((hdigits.sub le_rfl (by omega) : Digits base c.cell 0 k).congr hbelow)
        (Int.emod_nonneg value hd.ne') (Int.emod_lt_of_pos value hd)
    have hxk : x.cell k = value / d :=
      (hxcells k le_rfl).trans (update_self _ _ _)
    refine ⟨x, out, ?_, hsize, ?_, ?_, hout, houtd, ?_⟩
    · simp only [divDown, hget, bind_some, hvalue, hsigned, htdiv, hset, hrem, hloop]
    · intro i hi
      rcases Nat.lt_succ_iff_lt_or_eq.mp hi with hlt | rfl
      · exact hxdigits i hlt
      · rw [Nat.zero_add, hxk]
        exact ⟨hquot0, hquot⟩
    · intro p hp
      exact (hxcells p (le_of_succ_le hp)).trans (update_of_ne (by omega) _ _)
    · rw [limbs_congr hbelow] at heq
      rw [limbs_succ, limbs_succ, Nat.zero_add, hxk, pow_succ]
      linear_combination heq + base ^ k * hvalue + base ^ k * hrem

theorem rem_spec {a b : ObDivArray} {w v : Int} (ha : a.Holds w) (hb : b.Holds v)
    (hpos : 0 < b.len) (htop : b.digits.cell (b.len - 1) ≠ 0) (hlen : b.len ≤ a.len)
    (hroom : a.len + 1 < remBufferSize) (junk : Nat → Int) :
    ∃ r, rem junk a b = some r ∧ r.len = b.len ∧ r.Holds (w % v) := by
  obtain ⟨d, q, r, hnormaliser, hd, hdle, hdiv, -, -, hrlen, hr⟩ :=
    knuthDiv_spec ha hb hpos htop hlen hroom junk
  obtain ⟨x, out, hdown, hsize, hdigits, -, hout, houtd, hvalue⟩ :=
    divDown_spec hd hdle (by rw [hr.size_eq]; omega : r.len ≤ r.digits.size) hr.digits
      le_rfl hd
  rw [zero_mul, zero_add, hr.value] at hvalue
  obtain ⟨-, hquot⟩ := eq_of_add_mul le_rfl hd hout houtd
    (by linarith : 0 + w % v * d = out + limbs base x.cell 0 r.len * d)
  refine ⟨⟨r.len, x⟩, ?_, hrlen, hsize.trans hr.size_eq, hdigits, hquot.symm⟩
  simp only [rem, hdiv, bind_some, hnormaliser, divInPlace, hdown, map_some]

/-! ### Numbers as arrays -/

open ObNumber Positional in
/-- The array of a number's digits holds them as an integer, scaled up to `size` places. -/
theorem fromDigits_spec {digits : List Nat} {size : Nat} (junk : Nat → Int)
    (hdigits : ∀ d ∈ digits, d < ObNumber.base) (hsize : digits.length ≤ size)
    (hroom : size ≤ remBufferSize) :
    ∃ x, fromDigits junk digits size = some x ∧ x.len = size ∧
      x.Holds ((window ObNumber.base (digitAt digits) 0 digits.length *
        ObNumber.base ^ (size - digits.length) : Nat) : Int) ∧
      (∀ i, i < digits.length → x.digits.cell (size - 1 - i) = (digitAt digits i : Int)) := by
  have hmax : max size digits.length = size := by omega
  have hcells : ∀ p, p < size → (if size ≤ p then junk p
        else if p < size - digits.length then 0
        else (digitAt digits (size - 1 - p) : Int)) = (digitAt digits (size - 1 - p) : Int) := by
    intro p hp
    rw [if_neg (by omega)]
    split_ifs with hzero
    · rw [digitAt_of_le (by omega)]
      rfl
    · rfl
  refine ⟨_, by rw [fromDigits, hmax, if_pos hroom], rfl, ⟨rfl, ?_, ?_⟩, ?_⟩
  · intro i hi
    have hlt : ((digitAt digits (size - 1 - (0 + i)) : Nat) : Int) < (ObNumber.base : Int) :=
      by exact_mod_cast digitAt_lt hdigits _
    simp only [fresh, hcells (0 + i) (by simpa using hi)]
    exact ⟨Int.natCast_nonneg _, hlt⟩
  · have hreverse : limbs base (fun p => (digitAt digits (size - 1 - p) : Int)) 0 size =
        window base (fun j => (digitAt digits j : Int)) 0 size := by
      rw [limbs_eq_window]
      apply window_congr
      intro j hj
      simp only [Nat.zero_add]
      congr 2
      omega
    have htrim : window ObNumber.base (digitAt digits) 0
        (digits.length + (size - digits.length)) =
          window ObNumber.base (digitAt digits) 0 digits.length *
            ObNumber.base ^ (size - digits.length) := by
      apply window_trim
      intro j _
      exact digitAt_of_le (by omega)
    rw [add_sub_of_le hsize] at htrim
    rw [← htrim, ← window_natCast]
    refine Eq.trans ?_ hreverse
    apply limbs_congr
    intro i hi
    simp only [fresh]
    exact hcells _ (by rw [Nat.zero_add]; exact hi)
  · intro i hi
    simp only [fresh]
    rw [hcells _ (by omega)]
    congr 2
    omega

end SeekDB.ObDivArray
