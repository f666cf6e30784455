/-
How an operation on numbers turns digits and an exponent into its result: the
packed exponent and its range, and the rounding to the floating scale.
-/
import SeekDB.ObNumber

namespace SeekDB.ObNumber

open List Nat Positional

variable {first : Nat} {v : ℚ} {x : ObNumber} {sign : NumberSign} {digits : List Nat} {e : Int}
  {n p : Nat}

/-! ### Exponents -/

theorem expZero_eq : expZero = 64 := rfl

section

variable (hlow : -63 ≤ e) (hhigh : e ≤ 63)

include hlow hhigh

theorem encodeExp_positive :
    (encodeExp .positive e : Int) = 64 + e := by
  have hzero := expZero_eq
  simp only [encodeExp]
  omega

theorem encodeExp_negative :
    (encodeExp .negative e : Int) = 64 - e := by
  have hzero := expZero_eq
  simp only [encodeExp, complementExp]
  omega

theorem getDecodeExp_encodeExp :
    getDecodeExp { sign := sign, exp := encodeExp sign e, digits := digits } = e := by
  have hzero := expZero_eq
  cases sign with
  | positive =>
    have := encodeExp_positive hlow hhigh
    simp only [getDecodeExp]
    omega
  | negative =>
    have := encodeExp_negative hlow hhigh
    simp only [getDecodeExp]
    omega

theorem isGe1_encodeExp :
    isGe1 sign (encodeExp sign e) = true ↔ 0 ≤ e := by
  have hzero := expZero_eq
  have hpositive := encodeExp_positive hlow hhigh
  have hnegative := encodeExp_negative hlow hhigh
  cases sign <;> simp [isGe1] <;> omega

theorem isLt1_encodeExp :
    isLt1 sign (encodeExp sign e) = true ↔ e < 0 := by
  have hzero := expZero_eq
  have hpositive := encodeExp_positive hlow hhigh
  have hnegative := encodeExp_negative hlow hhigh
  cases sign <;> simp [isLt1] <;> omega

theorem natAbs_encodeExp :
    ((encodeExp sign e : Int) - expZero).natAbs = e.natAbs := by
  have hdecode : getDecodeExp { sign := sign, exp := encodeExp sign e, digits := [] } = e :=
    getDecodeExp_encodeExp hlow hhigh
  cases sign with
  | positive => exact congrArg Int.natAbs hdecode
  | negative =>
    rw [← Int.natAbs_neg, neg_sub]
    exact congrArg Int.natAbs hdecode

theorem expCheck_encodeExp : expCheck sign (encodeExp sign e) =
      if 14 < e then some .integerPrecisionOverflow
      else if e < -15 then some .decimalPrecisionOverflow
      else none := by
  have habs := Int.natAbs_eq e
  simp only [expCheck, natAbs_encodeExp hlow hhigh, Bool.and_eq_true, decide_eq_true_eq,
    isGe1_encodeExp hlow hhigh, isLt1_encodeExp hlow hhigh]
  generalize e.natAbs = distance at habs
  by_cases hover : 14 < e
  · have hlarge : 0 ≤ e ∧ maxIntegerExp < distance := by
      simp only [maxIntegerExp]
      omega
    rw [if_pos hlarge, if_pos hover]
  have hsmall : ¬ (0 ≤ e ∧ maxIntegerExp < distance) := by
    simp only [maxIntegerExp]
    omega
  have hunder : (maxDecimalExp < distance ∧ e < 0) ↔ e < -15 := by
    simp only [maxDecimalExp]
    omega
  rw [if_neg hsmall, if_neg hover]
  simp only [hunder]

end

theorem calcDescAndAssign_overflow (hhigh : e ≤ 63) (he : 14 < e) :
    calcDescAndAssign sign e digits = .error .integerPrecisionOverflow := by
  simp [calcDescAndAssign, @expCheck_encodeExp sign e (by omega) hhigh, he]

theorem calcDescAndAssign_underflow (hlow : -63 ≤ e) (he : e < -15) :
    calcDescAndAssign sign e digits = .ok zero := by
  have hnot : ¬ 14 < e := by omega
  simp [calcDescAndAssign, @expCheck_encodeExp sign e hlow (by omega), he, hnot]

theorem calcDescAndAssign_ok (hlow : -15 ≤ e) (hhigh : e ≤ 14) : calcDescAndAssign sign e digits =
      .ok { sign := sign, exp := encodeExp sign e, digits := digits } := by
  have hover : ¬ 14 < e := by omega
  have hunder : ¬ e < -15 := by omega
  simp [calcDescAndAssign, @expCheck_encodeExp sign e (by omega) (by omega), hover,
    hunder]

/-! ### Rounding to the floating scale -/

theorem getDigitLenV2_bounds {d : Nat} (hd : d < base) :
    1 ≤ getDigitLenV2 d ∧ getDigitLenV2 d ≤ 9 := by
  have hnot : ¬ base ≤ d := Nat.not_le.mpr hd
  simp only [getDigitLenV2, if_neg hnot]
  split_ifs <;> omega

/-- The power of ten that the ninth group is rounded to. -/
def roundPow (x : ObNumber) : Nat :=
  if 0 ≤ x.getDecodeExp then 10 ^ getDigitLenV2 (digitAt x.digits 0) else base

theorem roundPlan_of_nonneg (hpos : 0 < x.len) (hexp : 0 ≤ x.getDecodeExp) :
    x.roundPlan first floatingScale true = planScale x.len x.getDecodeExp (x.getDecodeExp + 1)
        (if x.getDecodeExp + 1 < x.len then x.getDecodeExp + 1 else x.len)
        (if x.getDecodeExp + 1 < x.len then x.len - (x.getDecodeExp + 1) else 0)
        (if x.getDecodeExp + 1 < x.len then x.len - (x.getDecodeExp + 1) else 0)
        (72 - (getDigitLenV2 first + x.getDecodeExp * 9)) first := by
  have hvalid : 0 < if x.getDecodeExp + 1 < x.len then x.getDecodeExp + 1 else (x.len : Int) := by
    split_ifs <;> omega
  have hwidth : (digitWidth : Int) = 9 := rfl
  have hscale : floatingScale = 72 := rfl
  simp only [roundPlan, hwidth, hscale, if_pos hexp, hvalid, and_self, if_true,
    Bool.true_eq_false, and_false, if_false, Int.add_zero, Int.add_sub_cancel]

theorem roundPlan_of_neg (hpos : 0 < x.len) (hexp : x.getDecodeExp < 0) :
    x.roundPlan first floatingScale true =
      planScale x.len x.getDecodeExp 0 0 x.len x.len 72 first := by
  have hnot : ¬ 0 ≤ x.getDecodeExp := Int.not_le.mpr hexp
  have hlen : (0 : Int) < x.len := by exact_mod_cast hpos
  have hscale : floatingScale = 72 := rfl
  simp only [roundPlan, hscale, if_neg hnot, if_pos hlen, lt_self_iff_false, and_false,
    Bool.true_eq_false, if_false, Int.add_zero, Int.sub_zero]

theorem roundPlan_of_len_le (hfirst : first < base) (hpos : 0 < x.len) (hlen : x.len ≤ 8) :
    x.roundPlan first floatingScale true = .keep := by
  have hwidth : (digitWidth : Int) = 9 := rfl
  obtain ⟨hone, hnine⟩ := getDigitLenV2_bounds hfirst
  rcases lt_or_ge x.getDecodeExp 0 with hexp | hexp
  · rw [roundPlan_of_neg hpos hexp]
    simp only [planScale, hwidth]
    rw [if_pos (by decide), if_pos (by omega)]
  rw [roundPlan_of_nonneg hpos hexp]
  generalize x.getDecodeExp = exp at *
  simp only [planScale, hwidth]
  by_cases hdecimal : exp + 1 < x.len
  · rw [if_pos (by omega), if_pos hdecimal, if_pos (by omega)]
  · split_ifs <;> first | rfl | omega

theorem roundPlan_of_le_len (hfirst : first < base) (hlen : 9 ≤ x.len) :
    ∃ cut powId : Nat, x.roundPlan first floatingScale true = .at cut 8 powId ∧ roundPows[powId]? =
        some (if 0 ≤ x.getDecodeExp then 10 ^ getDigitLenV2 first else base) ∧
      (cut = 9 ∨ cut = 8 ∧ powId = 0) := by
  have hwidth : (digitWidth : Int) = 9 := rfl
  obtain ⟨hone, hnine⟩ := getDigitLenV2_bounds hfirst
  have hpows : ∀ width, 1 ≤ width → width ≤ 9 →
      roundPows[9 - width]? = some (10 ^ width) := by decide
  rcases lt_or_ge x.getDecodeExp 0 with hexp | hexp
  · refine ⟨9, 0, ?_, ?_, Or.inl rfl⟩
    · rw [roundPlan_of_neg (by omega) hexp]
      simp only [planScale, hwidth]
      rw [if_pos (by decide), if_neg (by omega), if_neg (by omega)]
      congr 1 <;> omega
    · rw [if_neg (Int.not_le.mpr hexp)]
      rfl
  rw [roundPlan_of_nonneg (by omega) hexp, if_pos hexp]
  generalize x.getDecodeExp = exp, getDigitLenV2 first = width at *
  rcases lt_trichotomy (72 - (width + exp * 9)) 0 with hscale | hscale | hscale
  · have hvalid : ¬ ((if exp + 1 < x.len then exp + 1 else (x.len : Int)) < exp + 1 ∧
        exp - 7 ≤ exp + 1 - (if exp + 1 < x.len then exp + 1 else (x.len : Int))) := by
      split_ifs <;> omega
    rcases Nat.lt_or_ge width 9 with hless | hfull
    · refine ⟨9, 9 - width, ?_, hpows width hone hnine, Or.inl rfl⟩
      have hlength : (0 - (72 - (width + exp * 9))) / 9 = exp - 8 := by omega
      have hround : 0 - (72 - (width + exp * 9)) - (exp - 8) * 9 = width := by omega
      have hne : ¬ (width : Int) = 0 := by omega
      simp only [planScale, hwidth, if_neg (Int.not_lt.mpr hscale.le), if_pos hscale,
        hlength, hround, if_neg hne, show exp - 8 + 1 = exp - 7 by omega]
      rw [if_neg (by omega), if_neg hvalid]
      congr 1 <;> omega
    · obtain rfl : width = 9 := by omega
      refine ⟨9, 9, ?_, rfl, Or.inl rfl⟩
      have hlength : (0 - (72 - (((9 : Nat) : Int) + exp * 9))) / 9 = exp - 7 := by omega
      have hround : 0 - (72 - (((9 : Nat) : Int) + exp * 9)) - (exp - 7) * 9 = 0 := by omega
      simp only [planScale, hwidth, if_neg (Int.not_lt.mpr hscale.le), if_pos hscale,
        hlength, hround, if_true, Int.add_zero]
      rw [if_neg (by omega), if_neg hvalid]
      congr 1 <;> omega
  · have hexact : exp = 7 ∧ width = 9 := by omega
    obtain ⟨rfl, rfl⟩ := hexact
    refine ⟨8, 0, ?_, rfl, Or.inr ⟨rfl, rfl⟩⟩
    simp only [planScale, hscale, lt_self_iff_false, if_false]
    have hmore : (7 : Int) + 1 < x.len := by omega
    rw [if_pos hmore, if_pos hmore, if_neg (by omega), if_pos (by decide)]
    rfl
  · refine ⟨9, 9 - width, ?_, hpows width hone hnine, Or.inl rfl⟩
    have hdecimal : exp + 1 < x.len := by omega
    simp only [planScale, hwidth, if_pos hdecimal, if_pos hscale]
    rw [if_neg (by omega), if_neg (by omega)]
    congr 1 <;> omega

/-- The groups left of `x` when its first nine are worth `total`: a carry out of
the leading one leaves a single group. -/
inductive Keeps (x : ObNumber) (total : Nat) : ObNumber → Prop
  | groups {r : ObNumber} (hsign : r.sign = x.sign) (hexp : r.exp = x.exp)
      (hnormal : Normal r.digits) (hlen : r.len ≤ 9)
      (htotal : window base (digitAt r.digits) 0 r.len * base ^ (9 - r.len) = total) :
      Keeps x total r
  | carried (htotal : total = base ^ 9) :
      Keeps x total { sign := x.sign, exp := bumpExp x.sign x.exp, digits := [1] }

theorem normal_take {k : Nat} (hlt : ∀ d ∈ digits, d < base) (hhead : digitAt digits 0 ≠ 0)
    (hk : k < digits.length) (hlast : digitAt digits k ≠ 0) :
    Normal (digits.take (k + 1)) := by
  refine ⟨fun d hd => hlt d (mem_of_mem_take hd), ?_, ?_⟩
  · rwa [digitAt_take (succ_pos k)]
  · have hlen : (digits.take (k + 1)).length - 1 = k := by
      rw [length_take]
      omega
    rwa [hlen, digitAt_take (lt_succ_self k)]

theorem window_digitAt_take {k : Nat} :
    window base (digitAt (digits.take k)) 0 k = window base (digitAt digits) 0 k := by
  apply window_congr
  intro j hj
  rw [Nat.zero_add, digitAt_take hj]

theorem trimmedLen_spec (hlen : n ≤ digits.length) (hn : 0 < n) (hhead : digitAt digits 0 ≠ 0) :
    ∃ kept, trimmedLen digits n = some (kept + 1) ∧ kept < n ∧ digitAt digits kept ≠ 0 ∧
      ∀ j, kept < j → j < n → digitAt digits j = 0 := by
  induction n with
  | zero => exact absurd hn (Nat.lt_irrefl 0)
  | succ n ih =>
    have hget : digits[n]? = some (digitAt digits n) :=
      getElem?_eq_digitAt (lt_of_succ_le hlen)
    rcases hd : digitAt digits n with _ | d
    · have hpos : 0 < n := by
        rcases n with _ | n
        · exact absurd hd hhead
        · exact succ_pos n
      obtain ⟨kept, htrim, hkept, hne, hzeros⟩ := ih (le_of_succ_le hlen) hpos
      refine ⟨kept, ?_, lt_succ_of_lt hkept, hne, ?_⟩
      · simp only [trimmedLen, hget, hd, htrim]
      · intro j hj hjn
        rcases Nat.lt_succ_iff_lt_or_eq.mp hjn with hlt | rfl
        · exact hzeros j hj hlt
        · exact hd
    · refine ⟨n, ?_, lt_succ_self n, ?_, ?_⟩
      · simp only [trimmedLen, hget, hd]
      · rw [hd]
        exact succ_ne_zero d
      · intro j hj hjn
        omega

theorem window_snoc_max (hmax : digitAt digits n = base - 1) :
    window base (digitAt digits) 0 (n + 1) + 1 = (window base (digitAt digits) 0 n + 1) * base := by
  rw [window_snoc, Nat.zero_add, hmax, Nat.add_mul, Nat.one_mul, Nat.add_assoc,
    Nat.sub_add_cancel base_pos]

theorem carryInto_spec (hlt : ∀ d ∈ digits, d < base) (hlen : n ≤ digits.length) :
    (carryInto digits n = some (digits, none) ∧ window base (digitAt digits) 0 n + 1 = base ^ n) ∨
      ∃ kept, kept < n ∧ digitAt digits kept + 1 < base ∧ carryInto digits n =
          some (digits.set kept (digitAt digits kept + 1), some (kept + 1)) ∧
        window base (digitAt (digits.set kept (digitAt digits kept + 1))) 0 (kept + 1) *
            base ^ (n - (kept + 1)) =
          window base (digitAt digits) 0 n + 1 := by
  induction n with
  | zero => exact Or.inl ⟨rfl, rfl⟩
  | succ n ih =>
    have hn : n < digits.length := hlen
    have hget := getElem?_eq_digitAt hn
    have hdigit := digitAt_lt hlt n
    by_cases hmax : digitAt digits n = base - 1
    · have hunfold : carryInto digits (n + 1) = carryInto digits n := by
        simp only [carryInto, hget, if_pos hmax]
      rw [hunfold, window_snoc_max hmax]
      rcases ih (Nat.le_of_lt hn) with ⟨hcarry, htotal⟩ | ⟨kept, hkept, hless, hcarry, htotal⟩
      · exact Or.inl ⟨hcarry, by rw [htotal, pow_succ]⟩
      refine Or.inr ⟨kept, lt_succ_of_lt hkept, hless, hcarry, ?_⟩
      rw [← htotal, Nat.mul_assoc, ← pow_succ]
      congr 2
      omega
    · refine Or.inr ⟨n, lt_succ_self n, by omega, ?_, ?_⟩
      · simp only [carryInto, hget, if_neg hmax]
      have hfront : window base (digitAt (digits.set n (digitAt digits n + 1))) 0 n =
          window base (digitAt digits) 0 n := by
        apply window_congr
        intro j hj
        rw [digitAt_set_of_ne (by omega)]
      rw [Nat.sub_self, pow_zero, Nat.mul_one, window_snoc, window_snoc, hfront,
        Nat.zero_add, digitAt_set_self hn, Nat.add_assoc]

/-- The digits cut behind group `k`, all later ones of the nine being zero. -/
theorem Keeps.of_take {r : List Nat} {k total : Nat} (hlt : ∀ d ∈ r, d < base)
    (hhead : digitAt r 0 ≠ 0) (hk : k < r.length) (hnine : k < 9) (hlast : digitAt r k ≠ 0)
    (htotal : window base (digitAt r) 0 (k + 1) * base ^ (9 - (k + 1)) = total) :
    Keeps x total { x with digits := r.take (k + 1) } := by
  have hlen : (r.take (k + 1)).length = k + 1 := by
    rw [length_take]
    omega
  refine .groups rfl rfl (normal_take hlt hhead hk hlast) ?_ ?_
  · simp only [len, hlen]
    omega
  · simp only [len, hlen, window_digitAt_take]
    exact htotal

theorem mem_set_lt {i d : Nat} (hlt : ∀ d ∈ digits, d < base) (hd : d < base) :
    ∀ c ∈ digits.set i d, c < base := by
  intro c hc
  rcases mem_or_eq_of_mem_set hc with hmem | rfl
  · exact hlt c hmem
  · exact hd

section

variable (hlt : ∀ d ∈ x.digits, d < base) (hlen : 9 ≤ x.digits.length)
  (hhead : digitAt x.digits 0 ≠ 0)

include hlt hlen hhead

theorem Keeps.of_set {d : Nat} (hd : d ≠ 0) (hdlt : d < base) :
    Keeps x (window base (digitAt x.digits) 0 8 * base + d)
      { x with digits := (x.digits.set 8 d).take 9 } := by
  apply Keeps.of_take (k := 8) (mem_set_lt hlt hdlt)
  · rwa [digitAt_set_of_ne (by decide)]
  · rw [length_set]
    exact hlen
  · decide
  · rwa [digitAt_set_self hlen]
  have hfront : window base (digitAt (x.digits.set 8 d)) 0 8 =
      window base (digitAt x.digits) 0 8 := by
    apply window_congr
    intro j hj
    rw [digitAt_set_of_ne (by omega)]
  rw [window_snoc, hfront, Nat.zero_add, digitAt_set_self hlen, Nat.sub_self, pow_zero, Nat.mul_one]

theorem Keeps.of_trim {cut : Nat} (hcut : cut = 9 ∨ cut = 8) :
    ∃ kept, trimmedLen (x.digits.set 8 0) cut = some (kept + 1) ∧
      Keeps x (window base (digitAt x.digits) 0 8 * base)
        { x with digits := (x.digits.set 8 0).take (kept + 1) } := by
  have hhead' : digitAt (x.digits.set 8 0) 0 ≠ 0 := by rwa [digitAt_set_of_ne (by decide)]
  have hlast : digitAt (x.digits.set 8 0) 8 = 0 := digitAt_set_self hlen
  obtain ⟨kept, htrim, hkept, hne, hzeros⟩ := trimmedLen_spec (n := cut)
    (by rw [length_set]; omega) (by omega) hhead'
  refine ⟨kept, htrim, Keeps.of_take (mem_set_lt hlt base_pos) hhead' ?_ (by omega) hne ?_⟩
  · rw [length_set]
    omega
  have hfront : window base (digitAt (x.digits.set 8 0)) 0 8 =
      window base (digitAt x.digits) 0 8 := by
    apply window_congr
    intro j hj
    rw [digitAt_set_of_ne (by omega)]
  have hnine : window base (digitAt (x.digits.set 8 0)) 0 (kept + 1 + (9 - (kept + 1))) =
      window base (digitAt (x.digits.set 8 0)) 0 (kept + 1) * base ^ (9 - (kept + 1)) := by
    apply window_trim
    intro j hj
    rcases Nat.lt_or_ge (kept + 1 + j) 8 with hbefore | hat
    · exact hzeros _ (by omega) (by omega)
    · rw [show 0 + (kept + 1) + j = 8 by omega, hlast]
  rw [← hnine, show kept + 1 + (9 - (kept + 1)) = 8 + 1 by omega, window_snoc, hfront,
    Nat.zero_add, hlast, Nat.add_zero]

theorem Keeps.of_carry : ∃ r, x.normalizeCarry 8 = some r ∧
      Keeps x ((window base (digitAt x.digits) 0 8 + 1) * base) r := by
  rcases carryInto_spec (n := 8) hlt (by omega) with
    ⟨hinto, hwindow⟩ | ⟨kept, hkept, hless, hinto, hwindow⟩
  · refine ⟨_, by simp only [normalizeCarry, hinto], .carried ?_⟩
    rw [hwindow]
    exact (pow_succ base 8).symm
  have hset : digitAt (x.digits.set kept (digitAt x.digits kept + 1)) kept =
      digitAt x.digits kept + 1 := digitAt_set_self (by omega)
  have hnormalize : x.normalizeCarry 8 = some { x with
      digits := (x.digits.set kept (digitAt x.digits kept + 1)).take (kept + 1) } := by
    simp only [normalizeCarry, hinto]
  refine ⟨_, hnormalize, ?_⟩
  apply Keeps.of_take (mem_set_lt hlt hless)
  · rcases Nat.eq_zero_or_pos kept with rfl | hkeptPos
    · rw [hset]
      exact succ_ne_zero _
    · rwa [digitAt_set_of_ne (by omega)]
  · rw [length_set]
    omega
  · omega
  · rw [hset]
    exact succ_ne_zero _
  · rw [← hwindow, Nat.mul_assoc, ← pow_succ]
    congr 2
    omega

theorem roundAt_spec {cut : Nat} (hpos : 0 < p) (heven : 2 ∣ p) (hdvd : p ∣ base)
    (hcut : cut = 9 ∨ cut = 8 ∧ p = base) :
    ∃ r, x.roundAt cut 8 p = some r ∧
      Keeps x (nearest p (window base (digitAt x.digits) 0 9)) r := by
  have hget : x.digits[8]? = some (digitAt x.digits 8) := getElem?_eq_digitAt hlen
  have hdigit := digitAt_lt hlt 8
  have htotal : nearest p (window base (digitAt x.digits) 0 9) =
      window base (digitAt x.digits) 0 8 * base + nearest p (digitAt x.digits 8) := by
    rw [window_snoc, Nat.zero_add, nearest_mul_add hpos (Dvd.dvd.mul_left hdvd _)]
  have hnear := nearest_eq (n := digitAt x.digits 8) hpos heven
  have hmod := mod_lt (digitAt x.digits 8) hpos
  have hmodle := mod_le (digitAt x.digits 8) p
  have hfull : p = base → digitAt x.digits 8 % p = digitAt x.digits 8 := by
    rintro rfl
    exact mod_eq_of_lt hdigit
  have hmultiple : p ∣ digitAt x.digits 8 - digitAt x.digits 8 % p := dvd_sub_mod _
  generalize hd : digitAt x.digits 8 = digit at *
  generalize hr : digit % p = residue at *
  rw [htotal, hnear]
  split_ifs with hhalf
  · have hrounded : digit + (p - residue) = digit - residue + p := by omega
    by_cases hcarry : digit - residue + p = base
    · obtain ⟨r, hnormalize, hkeeps⟩ := Keeps.of_carry hlt hlen hhead
      refine ⟨r, ?_, ?_⟩
      · simp only [roundAt, hget, hr, if_pos hhalf, hrounded, if_pos hcarry, hnormalize]
      · rwa [hcarry, ← succ_mul]
    have hcut9 : cut = 9 := by
      rcases hcut with hcut | ⟨-, hbase⟩
      · exact hcut
      · have := hfull hbase
        omega
    have hlow : digit - residue + p < base := by
      obtain ⟨q, hq⟩ := hdvd
      obtain ⟨m, hm⟩ := hmultiple
      have : m < q := by
        apply Nat.lt_of_mul_lt_mul_left (a := p)
        omega
      have hle : p * (m + 1) ≤ p * q := Nat.mul_le_mul_left p this
      have hsucc : p * (m + 1) = p * m + p := by ring
      omega
    refine ⟨_, ?_, Keeps.of_set hlt hlen hhead (by omega) hlow⟩
    simp only [roundAt, hget, hr, if_pos hhalf, hrounded, if_neg hcarry, hcut9]
  · by_cases hzero : digit - residue = 0
    · obtain ⟨kept, htrim, hkeeps⟩ := Keeps.of_trim hlt hlen hhead
        (hcut.imp_right And.left)
      refine ⟨{ x with digits := (x.digits.set 8 0).take (kept + 1) }, ?_, ?_⟩
      · simp only [roundAt, hget, hr, if_neg hhalf, if_pos hzero, htrim]
      · rwa [hzero, Nat.add_zero]
    have hcut9 : cut = 9 := by
      rcases hcut with hcut | ⟨-, hbase⟩
      · exact hcut
      · have := hfull hbase
        omega
    refine ⟨_, ?_, Keeps.of_set hlt hlen hhead hzero (by omega)⟩
    simp only [roundAt, hget, hr, if_neg hhalf, if_neg hzero, hcut9]

end

theorem roundPow_spec (hhead : digitAt x.digits 0 < base) :
    0 < x.roundPow ∧ 2 ∣ x.roundPow ∧ x.roundPow ∣ base := by
  obtain ⟨hone, hnine⟩ := getDigitLenV2_bounds hhead
  have hpows : ∀ width, 1 ≤ width → width ≤ 9 →
      0 < 10 ^ width ∧ 2 ∣ 10 ^ width ∧ 10 ^ width ∣ base := by decide
  unfold roundPow
  split_ifs
  · exact hpows _ hone hnine
  · exact ⟨base_pos, by decide, dvd_refl base⟩

theorem roundScaleV3_of_len_le (hlt : ∀ d ∈ x.digits, d < base) (hlen : x.len ≤ 8) :
    x.roundScaleV3 floatingScale true = some x := by
  rcases hdigits : x.digits with _ | ⟨first, rest⟩
  · simp only [roundScaleV3, hdigits]
  · have hfirst : first < base := hlt first (by rw [hdigits]; exact mem_cons_self)
    have hpos : 0 < x.len := by simp [len, hdigits]
    simp only [roundScaleV3, hdigits, roundPlan_of_len_le hfirst hpos hlen]

theorem roundScaleV3_of_le_len (hlt : ∀ d ∈ x.digits, d < base)
    (hhead : digitAt x.digits 0 ≠ 0) (hlen : 9 ≤ x.len) :
    ∃ r, x.roundScaleV3 floatingScale true = some r ∧
      Keeps x (nearest x.roundPow (window base (digitAt x.digits) 0 9)) r := by
  rcases hdigits : x.digits with _ | ⟨first, rest⟩
  · exact absurd (by rw [hdigits]; rfl) hhead
  have hfirst : first < base := hlt first (by rw [hdigits]; exact mem_cons_self)
  have hhead0 : digitAt x.digits 0 = first := by rw [hdigits, digitAt_cons_zero]
  obtain ⟨cut, powId, hplan, hpow, hcut⟩ := roundPlan_of_le_len hfirst hlen
  have hpowEq : roundPows[powId]? = some x.roundPow := by
    rw [hpow, roundPow, hhead0]
  obtain ⟨hpos, heven, hdvd⟩ := roundPow_spec (x := x) (by rwa [hhead0])
  have hcutBase : cut = 9 ∨ cut = 8 ∧ x.roundPow = base := by
    rcases hcut with hcut | ⟨hcut, rfl⟩
    · exact Or.inl hcut
    · exact Or.inr ⟨hcut, (Option.some.inj hpowEq).symm⟩
  obtain ⟨r, hround, hkeeps⟩ := roundAt_spec hlt hlen hhead hpos heven hdvd hcutBase
  refine ⟨r, ?_, by rwa [hdigits] at hkeeps⟩
  simp only [roundScaleV3, hdigits, hplan]
  simp only [Int.toNat_natCast, hpowEq]
  exact hround

/-! ### Exact results -/

/-- Digit groups in range, without a zero group in front. -/
def Sound (x : ObNumber) : Prop :=
  (∀ d ∈ x.digits, d < base) ∧ (x.digits ≠ [] → digitAt x.digits 0 ≠ 0)

/-- What an operation returns when its exact result `v` takes at most eight
groups; whatever the result, no access or intermediate value is out of range. -/
structure ReturnsExact (call : Option (Except NumberRet ObNumber)) (v : ℚ) : Prop where
  defined : ∃ res, call = some res ∧ ∀ r, res = .ok r → r.Sound
  zero : v = 0 → call = some (.ok ObNumber.zero)
  overflow : ∀ e, Leads base e v → Fits base 8 e v → (maxIntegerExp : Int) < e →
    call = some (.error .integerPrecisionOverflow)
  underflow : ∀ e, Leads base e v → Fits base 8 e v → e < -(maxDecimalExp : Int) →
    call = some (.ok ObNumber.zero)
  exact : ∀ e, Leads base e v → Fits base 8 e v → -(maxDecimalExp : Int) ≤ e →
    e ≤ maxIntegerExp → ∃ r, call = some (.ok r) ∧ r.Canonical ∧ r.value = v

theorem Keeps.sound {total : Nat} {r : ObNumber} (h : Keeps x total r) : r.Sound := by
  cases h with
  | groups _ _ hnormal _ _ => exact ⟨hnormal.lt_base, fun _ => hnormal.head_ne⟩
  | carried _ =>
    refine ⟨?_, ?_⟩
    · simp [base]
    · simp

theorem Sound.zero : ObNumber.zero.Sound := by
  simp [Sound, ObNumber.zero]

theorem roundAfterArithmetic_defined {res : Except NumberRet ObNumber}
    (hres : ∀ r, res = .ok r → r.Sound) :
    ∃ out, roundAfterArithmetic res = some out ∧ ∀ r, out = .ok r → r.Sound := by
  cases res with
  | error ret => exact ⟨.error ret, rfl, fun r h => by cases h⟩
  | ok y =>
    obtain ⟨hlt, hhead⟩ := hres y rfl
    by_cases hmany : minRoundDigitCount ≤ y.len
    · simp only [roundAfterArithmetic, if_pos hmany]
      have hne : y.digits ≠ [] := by
        intro hnil
        simp [len, hnil, minRoundDigitCount] at hmany
      rcases Nat.lt_or_ge 8 y.len with hlong | hshort
      · obtain ⟨r, hround, hkeeps⟩ := roundScaleV3_of_le_len hlt (hhead hne) hlong
        refine ⟨.ok r, by rw [hround]; rfl, ?_⟩
        rintro _ ⟨rfl⟩
        exact hkeeps.sound
      · refine ⟨.ok y, by rw [roundScaleV3_of_len_le hlt hshort]; rfl, ?_⟩
        rintro _ ⟨rfl⟩
        exact ⟨hlt, hhead⟩
    · refine ⟨.ok y, by simp only [roundAfterArithmetic, if_neg hmany], ?_⟩
      rintro _ ⟨rfl⟩
      exact ⟨hlt, hhead⟩

theorem roundAfterArithmetic_ok (hlt : ∀ d ∈ x.digits, d < base) (hlen : x.len ≤ 8) :
    roundAfterArithmetic (.ok x) = some (.ok x) := by
  simp only [roundAfterArithmetic]
  split_ifs
  · rw [roundScaleV3_of_len_le hlt hlen]
    rfl
  · rfl

theorem leads_of_normal (hnormal : Normal digits)
    (habs : |v| = scaled base (digitAt digits) e 0 digits.length) : Leads base e v := by
  obtain ⟨k, hk⟩ : ∃ k, digits.length = k + 1 :=
    Nat.exists_eq_add_of_lt hnormal.length_pos |>.imp fun _ h => by omega
  rw [hk] at habs
  exact scaled_leads base_pos (fun j _ => digitAt_lt hnormal.lt_base _) hnormal.head_ne habs

theorem length_le_of_normal (hnormal : Normal digits)
    (habs : |v| = scaled base (digitAt digits) e 0 digits.length) (hfits : Fits base n e v) :
    digits.length ≤ n := by
  obtain ⟨k, hk⟩ : ∃ k, digits.length = k + 1 :=
    Nat.exists_eq_add_of_lt hnormal.length_pos |>.imp fun _ h => by omega
  have hlast : digitAt digits (0 + k) ≠ 0 := by
    have := hnormal.last_ne
    rwa [hk, Nat.add_sub_cancel, ← Nat.zero_add k] at this
  rw [hk] at habs ⊢
  exact length_le_of_fits base_pos hlast (digitAt_lt hnormal.lt_base _) habs hfits

theorem fits (x : ObNumber) : Fits base x.len x.getDecodeExp x.value := by
  rcases hsign : x.sign with _ | _
  · refine ⟨-(window base (digitAt x.digits) 0 x.len : Nat), ?_⟩
    rw [value, hsign, signFactor, magnitude, scaled]
    push_cast
    ring
  refine ⟨(window base (digitAt x.digits) 0 x.len : Nat), ?_⟩
  rw [value, hsign, signFactor, magnitude, scaled]
  push_cast
  ring

theorem Stored.leads (h : x.Stored) : Leads base x.getDecodeExp x.value :=
  leads_of_normal h.normal (abs_value x)

/-- An operation ends by packing the exponent of the exact digits and rounding;
digits it could not hold belong to a result of more than eight groups. -/
theorem ReturnsExact.of_assign {stored : List Nat} (hnormal : Normal digits)
    (hv : v = signFactor sign * scaled base (digitAt digits) e 0 digits.length)
    (hlow : -63 ≤ e) (hhigh : e ≤ 63)
    (hstored : stored = digits ∨ 8 < digits.length ∧ (∀ d ∈ stored, d < base) ∧
      digitAt stored 0 ≠ 0) :
    ReturnsExact (roundAfterArithmetic (calcDescAndAssign sign e stored)) v := by
  have habs : |v| = scaled base (digitAt digits) e 0 digits.length := by
    rw [hv, abs_mul, abs_signFactor, one_mul, abs_of_nonneg scaled_nonneg]
  have hleads := leads_of_normal hnormal habs
  have hexp : ∀ e', Leads base e' v → e' = e := fun e' h => h.unique one_lt_base hleads
  have hfit : Fits base 8 e v → stored = digits ∧ digits.length ≤ 8 := by
    intro hfits
    have hle := length_le_of_normal hnormal habs hfits
    rcases hstored with hstored | ⟨hmore, -⟩
    · exact ⟨hstored, hle⟩
    · omega
  have hlt : ∀ d ∈ stored, d < base := by
    rcases hstored with rfl | ⟨-, hlt, -⟩
    · exact hnormal.lt_base
    · exact hlt
  have hhead : digitAt stored 0 ≠ 0 := by
    rcases hstored with rfl | ⟨-, -, hhead⟩
    · exact hnormal.head_ne
    · exact hhead
  refine ⟨?_, ?_, ?_, ?_, ?_⟩
  · apply roundAfterArithmetic_defined
    intro r hr
    rcases lt_or_ge 14 e with hover | hover
    · rw [calcDescAndAssign_overflow hhigh hover] at hr
      cases hr
    rcases lt_or_ge e (-15) with hunder | hunder
    · rw [calcDescAndAssign_underflow hlow hunder] at hr
      cases hr
      exact Sound.zero
    · rw [calcDescAndAssign_ok hunder hover] at hr
      cases hr
      exact ⟨hlt, fun _ => hhead⟩
  · intro hzero
    exact absurd hzero (hleads.ne_zero base_pos)
  · intro e' hleads' hfits hover
    obtain rfl := hexp e' hleads'
    rw [calcDescAndAssign_overflow hhigh hover]
    rfl
  · intro e' hleads' hfits hunder
    obtain rfl := hexp e' hleads'
    rw [calcDescAndAssign_underflow hlow hunder]
    rfl
  · intro e' hleads' hfits hunder hover
    obtain rfl := hexp e' hleads'
    obtain ⟨rfl, hlen⟩ := hfit hfits
    refine ⟨{ sign := sign, exp := encodeExp sign e', digits := stored }, ?_, ?_, ?_⟩
    · rw [calcDescAndAssign_ok hunder hover]
      exact roundAfterArithmetic_ok hlt hlen
    · refine Or.inr ⟨hnormal, le_succ_of_le hlen, ?_, ?_⟩
      · rwa [getDecodeExp_encodeExp hlow hhigh]
      · rwa [getDecodeExp_encodeExp hlow hhigh]
    · rw [value, magnitude, getDecodeExp_encodeExp hlow hhigh, hv]
      rfl

theorem ReturnsExact.round {call : Option (Except NumberRet ObNumber)} (h : ReturnsExact call v) :
    ReturnsExact (call.bind roundAfterArithmetic) v := by
  refine ⟨?_, ?_, ?_, ?_, ?_⟩
  · obtain ⟨res, rfl, hsound⟩ := h.defined
    exact roundAfterArithmetic_defined hsound
  · intro hzero
    rw [h.zero hzero]
    rfl
  · intro e hleads hfits hover
    rw [h.overflow e hleads hfits hover]
    rfl
  · intro e hleads hfits hunder
    rw [h.underflow e hleads hfits hunder]
    rfl
  intro e hleads hfits hunder hover
  obtain ⟨r, hcall, hcanonical, hvalue⟩ := h.exact e hleads hfits hunder hover
  refine ⟨r, ?_, hcanonical, hvalue⟩
  rcases hcanonical with rfl | hstored
  · exact absurd (hvalue.symm.trans value_zero) (hleads.ne_zero base_pos)
  have hexp : r.getDecodeExp = e := by
    apply Leads.unique one_lt_base hstored.leads
    rwa [hvalue]
  have hlen : r.len ≤ 8 := by
    apply length_le_of_normal hstored.normal (abs_value r)
    rwa [hvalue, hexp]
  rw [hcall]
  exact roundAfterArithmetic_ok hstored.normal.lt_base hlen

theorem ReturnsExact.of_zero (hv : v = 0) : ReturnsExact (some (.ok ObNumber.zero)) v := by
  have hnone : ∀ e, ¬ Leads base e v := fun e h => h.ne_zero base_pos hv
  refine ⟨⟨_, rfl, ?_⟩, fun _ => rfl, fun e h => absurd h (hnone e),
    fun e h => absurd h (hnone e), fun e h => absurd h (hnone e)⟩
  rintro _ ⟨rfl⟩
  exact Sound.zero

/-! ### Operands as results -/

section

variable (h : x.Stored)

include h

theorem Stored.encodeExp_getDecodeExp : encodeExp x.sign x.getDecodeExp = x.exp := by
  have hlow := h.exp_ge
  have hhigh := h.exp_le
  have hzero := expZero_eq
  simp only [maxIntegerExp, maxDecimalExp] at hlow hhigh
  rcases hsign : x.sign with _ | _
  · have hdecode : x.getDecodeExp = 64 - x.exp := by
      simp only [getDecodeExp, hsign]
      omega
    have := encodeExp_negative (e := x.getDecodeExp) (by omega) (by omega)
    omega
  have hdecode : x.getDecodeExp = x.exp - 64 := by
    simp only [getDecodeExp, hsign]
    omega
  have := encodeExp_positive (e := x.getDecodeExp) (by omega) (by omega)
  omega

theorem Stored.calcDescAndAssign_eq :
    calcDescAndAssign x.sign x.getDecodeExp x.digits = .ok x := by
  rw [calcDescAndAssign_ok h.exp_ge h.exp_le, h.encodeExp_getDecodeExp]

theorem Stored.deepCopyV3_eq : deepCopyV3 x = .ok x := by
  have hpos := h.normal.length_pos
  have hle := h.len_le
  have hlen : x.len = x.digits.length := rfl
  rw [deepCopyV3, if_neg (by omega), if_neg (by simp only [maxCalcLen, maxStoreLen] at *; omega)]

theorem ReturnsExact.of_stored :
    ReturnsExact (roundAfterArithmetic (.ok x)) x.value := by
  have hlow := h.exp_ge
  have hhigh := h.exp_le
  simp only [maxIntegerExp, maxDecimalExp] at hlow hhigh
  rw [← h.calcDescAndAssign_eq]
  exact ReturnsExact.of_assign h.normal rfl (by omega) (by omega) (Or.inl rfl)

end

section

variable (h : x.Stored)

include h

theorem Stored.negate_eq :
    x.negate = { sign := flip x.sign, exp := complementExp x.exp, digits := x.digits } := by
  rw [ObNumber.negate, h.isZero]
  rfl

theorem Stored.getDecodeExp_negate : x.negate.getDecodeExp = x.getDecodeExp := by
  have hlow := h.exp_ge
  have hhigh := h.exp_le
  have hzero := expZero_eq
  simp only [maxIntegerExp, maxDecimalExp] at hlow hhigh
  rw [h.negate_eq]
  rcases hsign : x.sign with _ | _ <;>
    simp only [getDecodeExp, hsign, flip, complementExp] at * <;> omega

theorem Stored.negate : x.negate.Stored := by
  have hdigits : x.negate.digits = x.digits := by rw [h.negate_eq]
  refine ⟨?_, ?_, ?_, ?_⟩
  · rw [hdigits]
    exact h.normal
  · rw [len, hdigits]
    exact h.len_le
  · rw [h.getDecodeExp_negate]
    exact h.exp_ge
  · rw [h.getDecodeExp_negate]
    exact h.exp_le

theorem Stored.magnitude_negate : x.negate.magnitude = x.magnitude := by
  rw [magnitude, magnitude, h.getDecodeExp_negate, len, h.negate_eq]
  rfl

theorem Stored.value_negate : x.negate.value = -x.value := by
  rw [value, value, h.magnitude_negate, h.negate_eq]
  cases x.sign <;> simp [signFactor, flip]

end

end SeekDB.ObNumber
