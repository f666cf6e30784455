/-
Rounding to the floating scale as rounding of an exact value: the digit groups
that were computed are the leading ones of the value, and the result is the
value rounded half away from zero at the place chosen for it.
-/
import SeekDB.ObNumberResult

namespace SeekDB.ObNumber

open Nat Positional

variable {x r : ObNumber} {sign : NumberSign} {digits : List Nat} {e : Int} {v : ℚ} {total : Nat}

/-- The leading group of a value whose leading exponent is `e`. -/
def leadingGroup (e : Int) (v : ℚ) : Nat := ⌊v / (base : ℚ) ^ e⌋₊

/-- The place at which `round_scale_v3_` rounds to the floating scale: with an
integer part 72 digits are left, otherwise eight groups. -/
def roundUnit (e : Int) (v : ℚ) : ℚ :=
  ((if 0 ≤ e then 10 ^ getDigitLenV2 (leadingGroup e v) else base : Nat) : ℚ) * (base : ℚ) ^ (e - 8)

/-- The exact absolute value `v` rounded half away from zero. -/
def roundedValue (e : Int) (v : ℚ) : ℚ := roundHalfUp (roundUnit e v) v

/-- What the rounding of a number with exponent `e` leaves of the value `v`. -/
structure Rounds (sign : NumberSign) (e : Int) (v : ℚ) (r : ObNumber) : Prop where
  sign_eq : r.sign = sign
  exp_eq : r.exp = encodeExp sign r.getDecodeExp
  lead : r.getDecodeExp = e ∨ r.getDecodeExp = e + 1
  normal : Normal r.digits
  len_le : r.len ≤ 9
  magnitude : r.magnitude = roundedValue e v

theorem bumpExp_encodeExp (hlow : -63 ≤ e) (hhigh : e ≤ 62) :
    bumpExp sign (encodeExp sign e) = encodeExp sign (e + 1) := by
  cases sign with
  | positive =>
    have hbefore := encodeExp_positive hlow (by omega : e ≤ 63)
    have hafter := encodeExp_positive (by omega : -63 ≤ e + 1) (by omega)
    simp only [bumpExp]
    omega
  | negative =>
    have hbefore := encodeExp_negative hlow (by omega : e ≤ 63)
    have hafter := encodeExp_negative (by omega : -63 ≤ e + 1) (by omega)
    simp only [bumpExp]
    omega

theorem base_zpow_mul (n : Nat) (e : Int) :
    ((base ^ n : Nat) : ℚ) * (base : ℚ) ^ e = (base : ℚ) ^ (e + n) := by
  have hne : (base : ℚ) ≠ 0 := by exact_mod_cast base_pos.ne'
  rw [cast_pow, ← zpow_natCast, ← zpow_add₀ hne, add_comm]

theorem magnitude_of_len_le (hlen : x.len ≤ 9)
    (htotal : window base (digitAt x.digits) 0 x.len * base ^ (9 - x.len) = total) :
    x.magnitude = total * (base : ℚ) ^ (x.getDecodeExp - 8) := by
  rw [magnitude, scaled, ← htotal, cast_mul, mul_assoc, base_zpow_mul]
  congr 2
  omega

theorem getDecodeExp_of_encodeExp (hlow : -63 ≤ e) (hhigh : e ≤ 62) (hsign : r.sign = sign)
    (hexp : r.exp = encodeExp sign e) : r.getDecodeExp = e := by
  have hsame : r.getDecodeExp =
      getDecodeExp { sign := sign, exp := encodeExp sign e, digits := [] } := by
    simp only [getDecodeExp, hsign, hexp]
  rw [hsame, getDecodeExp_encodeExp hlow (by omega)]

section

variable (hlow : -63 ≤ e) (hhigh : e ≤ 62)
  (hkeeps : Keeps { sign := sign, exp := encodeExp sign e, digits := digits } total r)

include hlow hhigh hkeeps

theorem Keeps.exp_eq : r.sign = sign ∧ r.exp = encodeExp sign r.getDecodeExp ∧
      (r.getDecodeExp = e ∨ r.getDecodeExp = e + 1) := by
  cases hkeeps with
  | groups hsign hexp =>
    have hdecode := getDecodeExp_of_encodeExp hlow hhigh hsign hexp
    exact ⟨hsign, by rw [hexp, hdecode], Or.inl hdecode⟩
  | carried =>
    simp only [bumpExp_encodeExp hlow hhigh]
    rw [getDecodeExp_encodeExp (by omega) (by omega)]
    exact ⟨trivial, rfl, Or.inr rfl⟩

theorem Keeps.magnitude_eq : r.magnitude = total * (base : ℚ) ^ (e - 8) := by
  cases hkeeps with
  | groups hsign hexp _ hlen htotal =>
    have hdecode := getDecodeExp_of_encodeExp hlow hhigh hsign hexp
    rw [magnitude_of_len_le hlen htotal, hdecode]
  | carried htotal =>
    simp only [bumpExp_encodeExp hlow hhigh]
    have hone : window base (digitAt [1]) 0 1 * base ^ (9 - 1) = base ^ 8 := by decide
    have hmagnitude : magnitude { sign := sign, exp := encodeExp sign (e + 1), digits := [1] } =
        (base ^ 8 : Nat) * (base : ℚ) ^ (getDecodeExp
          { sign := sign, exp := encodeExp sign (e + 1), digits := [1] } - 8) :=
      magnitude_of_len_le (Nat.le_add_left 1 8) hone
    rw [hmagnitude, getDecodeExp_encodeExp (by omega) (by omega), htotal, base_zpow_mul,
      base_zpow_mul]
    congr 1
    ring

omit hlow hhigh in
theorem Keeps.normal : Normal r.digits ∧ r.len ≤ 9 := by
  cases hkeeps with
  | groups _ _ hnormal hlen => exact ⟨hnormal, hlen⟩
  | carried => exact ⟨⟨by simp [base], by simp, by simp⟩, Nat.le_add_left 1 8⟩

end

section

variable (hnormal : Normal digits) (hlow : -63 ≤ e) (hhigh : e ≤ 62)
  (hvlow : (window base (digitAt digits) 0 9 : Nat) * (base : ℚ) ^ (e - 8) ≤ v)
  (hvhigh : v < ((window base (digitAt digits) 0 9 : Nat) + 1) * (base : ℚ) ^ (e - 8))

include hnormal hvlow hvhigh

theorem leadingGroup_eq : leadingGroup e v = digitAt digits 0 := by
  have hunit : (0 : ℚ) < (base : ℚ) ^ (e - 8) := zpow_pos (by exact_mod_cast base_pos) _
  have hpow : (base : ℚ) ^ e = ((base ^ 8 : Nat) : ℚ) * (base : ℚ) ^ (e - 8) := by
    rw [base_zpow_mul]
    congr 1
    ring
  have hrest : window base (digitAt digits) 1 8 < base ^ 8 :=
    window_lt fun j _ => digitAt_lt hnormal.lt_base _
  have hwindow : window base (digitAt digits) 0 9 =
      digitAt digits 0 * base ^ 8 + window base (digitAt digits) 1 8 := window_succ
  generalize window base (digitAt digits) 0 9 = W at *
  have hpos : (0 : ℚ) < (base : ℚ) ^ e := zpow_pos (by exact_mod_cast base_pos) _
  rw [leadingGroup, floor_eq_iff (div_nonneg ((by positivity : (0 : ℚ) ≤ _).trans hvlow)
    hpos.le), le_div_iff₀ hpos, div_lt_iff₀ hpos, hpow, ← mul_assoc, ← mul_assoc]
  constructor
  · apply le_trans _ hvlow
    apply mul_le_mul_of_nonneg_right _ hunit.le
    exact_mod_cast (by omega : digitAt digits 0 * base ^ 8 ≤ W)
  apply lt_of_lt_of_le hvhigh
  apply mul_le_mul_of_nonneg_right _ hunit.le
  have hnext : W + 1 ≤ (digitAt digits 0 + 1) * base ^ 8 := by
    rw [Nat.add_mul, Nat.one_mul]
    omega
  exact_mod_cast hnext

include hlow hhigh

theorem roundedValue_eq : roundedValue e v =
      nearest (roundPow { sign := sign, exp := encodeExp sign e, digits := digits })
        (window base (digitAt digits) 0 9) * (base : ℚ) ^ (e - 8) := by
  have hunit : (0 : ℚ) < (base : ℚ) ^ (e - 8) := zpow_pos (by exact_mod_cast base_pos) _
  obtain ⟨hpos, heven, -⟩ := @roundPow_spec
    { sign := sign, exp := encodeExp sign e, digits := digits } (digitAt_lt hnormal.lt_base 0)
  have hplace : roundUnit e v =
      (roundPow { sign := sign, exp := encodeExp sign e, digits := digits } : Nat) *
        (base : ℚ) ^ (e - 8) := by
    rw [roundUnit, leadingGroup_eq hnormal hvlow hvhigh, roundPow,
      getDecodeExp_encodeExp hlow (by omega)]
  rw [roundedValue, hplace]
  exact roundHalfUp_eq_nearest hpos heven hunit hvlow hvhigh

/-- The leading groups of `v` are rounded to what is the rounded value of `v`. -/
theorem roundScaleV3_rounds :
    ∃ r, roundScaleV3 { sign := sign, exp := encodeExp sign e, digits := digits }
        floatingScale true = some r ∧
      Rounds sign e v r ∧ r.len ≤ digits.length := by
  have hrounded := @roundedValue_eq sign digits e v hnormal hlow hhigh hvlow hvhigh
  obtain ⟨hpos, heven, hdvd⟩ := @roundPow_spec
    { sign := sign, exp := encodeExp sign e, digits := digits } (digitAt_lt hnormal.lt_base 0)
  generalize hx : ({ sign := sign, exp := encodeExp sign e, digits := digits } : ObNumber) = x
    at *
  have hdigits : x.digits = digits := by rw [← hx]
  rcases Nat.lt_or_ge 8 digits.length with hlong | hshort
  · obtain ⟨r, hround, hkeeps⟩ := roundScaleV3_of_le_len (x := x)
      (by rw [hdigits]; exact hnormal.lt_base) (by rw [hdigits]; exact hnormal.head_ne)
      (by rw [len, hdigits]; exact hlong)
    subst hx
    obtain ⟨hsign, hexp, hlead⟩ := hkeeps.exp_eq hlow hhigh
    obtain ⟨hrnormal, hrlen⟩ := hkeeps.normal
    refine ⟨r, hround, ⟨hsign, hexp, hlead, hrnormal, hrlen, ?_⟩, hrlen.trans hlong⟩
    rw [hkeeps.magnitude_eq hlow hhigh, hrounded]
  -- The ninth group is zero, so the rounding keeps the value.
  have hlast : digitAt digits 8 = 0 := digitAt_of_le hshort
  have hself : nearest x.roundPow (window base (digitAt digits) 0 9) =
      window base (digitAt digits) 0 9 := by
    apply nearest_self hpos heven
    rw [window_snoc, hlast, Nat.add_zero]
    exact Dvd.dvd.mul_left hdvd _
  have hlen : x.len ≤ 8 := by rw [len, hdigits]; exact hshort
  have hsign : x.sign = sign := by rw [← hx]
  have hexp : x.exp = encodeExp sign e := by rw [← hx]
  have hdecode : x.getDecodeExp = e := by
    rw [← hx, getDecodeExp_encodeExp hlow (by omega)]
  refine ⟨x, roundScaleV3_of_len_le (by rw [hdigits]; exact hnormal.lt_base) hlen,
    ⟨hsign, by rw [hdecode, hexp], Or.inl hdecode, by rwa [hdigits], by omega, ?_⟩,
    by rw [len, hdigits]⟩
  rw [hrounded, hself, magnitude_of_len_le (by omega) rfl, hdecode, hdigits]
  congr 2
  have htrim : window base (digitAt digits) 0 (x.len + (9 - x.len)) =
      window base (digitAt digits) 0 x.len * base ^ (9 - x.len) := by
    apply window_trim
    intro j _
    apply digitAt_of_le
    rw [len, hdigits]
    omega
  rw [← htrim, add_sub_of_le (by omega)]

end

theorem leads_of_groups (hnormal : Normal digits)
    (hvlow : ((window base (digitAt digits) 0 9 : Nat) : ℚ) * (base : ℚ) ^ (e - 8) ≤ |v|)
    (hvhigh : |v| < (((window base (digitAt digits) 0 9 : Nat) : ℚ) + 1) * (base : ℚ) ^ (e - 8)) :
    Leads base e v := by
  have hunit : (0 : ℚ) < (base : ℚ) ^ (e - 8) := zpow_pos (by exact_mod_cast base_pos) _
  have hfront : (base ^ 8 : Nat) ≤ window base (digitAt digits) 0 9 :=
    pow_le_window hnormal.head_ne
  have hback : window base (digitAt digits) 0 9 + 1 ≤ base ^ 9 :=
    window_lt fun j _ => digitAt_lt hnormal.lt_base _
  constructor
  · refine le_trans ?_ hvlow
    rw [show (base : ℚ) ^ e = ((base ^ 8 : Nat) : ℚ) * (base : ℚ) ^ (e - 8) by
      rw [base_zpow_mul]; congr 1; push_cast; ring]
    exact mul_le_mul_of_nonneg_right (by exact_mod_cast hfront) hunit.le
  · refine lt_of_lt_of_le hvhigh ?_
    rw [show (base : ℚ) ^ (e + 1) = ((base ^ 9 : Nat) : ℚ) * (base : ℚ) ^ (e - 8) by
      rw [base_zpow_mul]; congr 1; push_cast; ring]
    exact mul_le_mul_of_nonneg_right (by exact_mod_cast hback) hunit.le

section

variable (h : Rounds sign e v r)

include h

theorem Rounds.leads :
    Leads base r.getDecodeExp (signFactor sign * roundedValue e v) := by
  apply leads_of_normal h.normal
  rw [abs_mul, abs_signFactor, one_mul, ← h.magnitude, abs_of_nonneg r.magnitude_nonneg]
  rfl

theorem Rounds.value_eq : r.value = signFactor sign * roundedValue e v := by
  rw [value, h.sign_eq, h.magnitude]

theorem Rounds.canonical (hlow : -15 ≤ r.getDecodeExp)
    (hhigh : r.getDecodeExp ≤ 14) : r.Canonical :=
  Or.inr ⟨h.normal, h.len_le, hlow, hhigh⟩

end

end SeekDB.ObNumber
