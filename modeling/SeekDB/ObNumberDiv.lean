/-
Division of numbers: the dividend is extended by nine groups more than the
divisor has, divided as an array of digits, cut to nine groups and rounded.
-/
import SeekDB.ObDivArrayKnuth
import SeekDB.ObNumberMul
import SeekDB.ObNumberRound

namespace SeekDB.ObNumber

open ObDivArray Nat Option Positional

def divBufferSize : Nat := 20

/-- The offset of the first group that is not zero; `left` groups are left. -/
def skipZeros (digits : CheckedArray Nat) : Nat → Nat → Option Nat
  | 0, offset => some offset
  | left + 1, offset =>
    match digits.get? offset with
    | none => none
    | some 0 => skipZeros digits left (offset + 1)
    | some (_ + 1) => some offset

/-- The end of the groups below `stop` when the zero groups there are dropped. -/
def dropZeros (digits : CheckedArray Nat) : Nat → Option Nat
  | 0 => none
  | stop + 1 =>
    match digits.get? stop with
    | none => none
    | some 0 => dropZeros digits stop
    | some (_ + 1) => some (stop + 1)

/-- The end that division and remainder share: zero groups in front lower the
exponent, at most nine groups are kept. -/
def assignLeading (sign : NumberSign) (sumExp : Int) (sumDigits : CheckedArray Nat) (len : Nat) :
    Option (Except NumberRet ObNumber) :=
  (skipZeros sumDigits len 0).bind fun offset =>
    let sumLen := min (len - offset) maxDecimalDigit
    (dropZeros sumDigits (offset + sumLen)).bind fun stop =>
      (sumDigits.slice? offset (stop - offset)).map
        (calcDescAndAssign sign (sumExp - offset))

def quotientSign (x other : ObNumber) : NumberSign :=
  if x.sign = other.sign then .positive else .negative

/-- The quotient of two nonzero numbers before the final rounding. -/
def divDigits (junk : Nat → Int) (x other : ObNumber) (qscale : Nat) :
    Option (Except NumberRet ObNumber) :=
  let extendLen := min (other.len + qscale) divBufferSize
  (fromDigits junk x.digits (min divBufferSize extendLen)).bind fun dividend =>
    (fromDigits junk other.digits other.len).bind fun divisor =>
      (divV2 junk dividend divisor).bind fun quotient =>
        if quotient.isZero then some (.ok zero)
        else
          assignLeading (quotientSign x other) (x.getDecodeExp - other.getDecodeExp)
            (quotient.getUint32Digits multBufferSize) quotient.len

def divV3 (junk : Nat → Int) (x other : ObNumber) (qscale : Nat) (doRounding : Bool) :
    Option (Except NumberRet ObNumber) :=
  let res :=
    if other.isZero then some (.error .divisionByZero)
    else if x.isZero then some (.ok zero)
    else divDigits junk x other qscale
  if doRounding then res.bind roundAfterArithmetic else res

/-! ### The leading groups -/

section

variable {digits : CheckedArray Nat} {left offset lo stop : Nat}

theorem skipZeros_spec (hsize : offset + left ≤ digits.size)
    (hne : ∃ j, j < left ∧ digits.cell (offset + j) ≠ 0) :
    ∃ k, k < left ∧ skipZeros digits left offset = some (offset + k) ∧
      (∀ j, j < k → digits.cell (offset + j) = 0) ∧ digits.cell (offset + k) ≠ 0 := by
  induction left generalizing offset with
  | zero =>
    obtain ⟨j, hj, -⟩ := hne
    exact absurd hj (Nat.not_lt_zero j)
  | succ left ih =>
    have hget := CheckedArray.get?_eq (by omega : offset < digits.size)
    rcases hcell : digits.cell offset with _ | d
    · obtain ⟨j, hj, hjne⟩ := hne
      have htail : ∃ i, i < left ∧ digits.cell (offset + 1 + i) ≠ 0 := by
        rcases j with _ | j
        · exact absurd hcell hjne
        · exact ⟨j, by omega, by rwa [Nat.add_assoc, Nat.add_comm 1 j]⟩
      obtain ⟨k, hk, hskip, hzeros, hkne⟩ := ih (by omega) htail
      refine ⟨k + 1, by omega, ?_, ?_, ?_⟩
      · simp only [skipZeros, hget, hcell, hskip, Nat.add_assoc, Nat.add_comm 1 k]
      · intro i hi
        rcases i with _ | i
        · exact hcell
        · have := hzeros i (by omega)
          rwa [Nat.add_assoc, Nat.add_comm 1 i] at this
      · rwa [Nat.add_assoc, Nat.add_comm 1 k] at hkne
    · refine ⟨0, succ_pos left, ?_, fun j hj => absurd hj (Nat.not_lt_zero j), ?_⟩
      · simp only [skipZeros, hget, hcell, Nat.add_zero]
      · rw [Nat.add_zero, hcell]
        exact succ_ne_zero d

theorem dropZeros_spec (hsize : stop ≤ digits.size) (hlo : lo < stop) (hne : digits.cell lo ≠ 0) :
    ∃ m, lo < m ∧ m ≤ stop ∧ dropZeros digits stop = some m ∧ digits.cell (m - 1) ≠ 0 ∧
      ∀ j, m ≤ j → j < stop → digits.cell j = 0 := by
  induction stop with
  | zero => exact absurd hlo (Nat.not_lt_zero lo)
  | succ stop ih =>
    have hget := CheckedArray.get?_eq (by omega : stop < digits.size)
    rcases hcell : digits.cell stop with _ | d
    · have hstop : lo < stop := by
        rcases Nat.lt_succ_iff_lt_or_eq.mp hlo with hlt | rfl
        · exact hlt
        · exact absurd hcell hne
      obtain ⟨m, hlom, hmstop, hdrop, hlast, hzeros⟩ := ih (by omega) hstop
      refine ⟨m, hlom, by omega, by simp only [dropZeros, hget, hcell, hdrop], hlast, ?_⟩
      intro j hmj hj
      rcases Nat.lt_succ_iff_lt_or_eq.mp hj with hlt | rfl
      · exact hzeros j hmj hlt
      · exact hcell
    · refine ⟨stop + 1, hlo, le_rfl, by simp only [dropZeros, hget, hcell], ?_, ?_⟩
      · rw [Nat.add_sub_cancel, hcell]
        exact succ_ne_zero d
      · intro j hj hlt
        omega

theorem digitAt_segment {cell : Nat → Nat} {k j : Nat} (hj : j < k) :
    digitAt (ByteMemory.segment cell lo k) j = cell (lo + j) :=
  digitAt_of_getElem? (ByteMemory.getElem?_segment hj)

/-- Digits in front of which and behind which there are only zeros. -/
structure LeadingGroups (cell : Nat → Nat) (len offset : Nat) (kept : List Nat) : Prop where
  offset_lt : offset < len
  zeros : ∀ j, j < offset → cell j = 0
  normal : Normal kept
  length_le : kept.length ≤ 9
  digit : ∀ j, j < 9 → digitAt kept j = cell (offset + j)

theorem assignLeading_spec {len : Nat} (sign : NumberSign) (sumExp : Int)
    (hlt : ∀ i, digits.cell i < base) (hbehind : ∀ i, len ≤ i → digits.cell i = 0)
    (hsize : len ≤ digits.size) (hne : ∃ i, i < len ∧ digits.cell i ≠ 0) :
    ∃ offset kept, LeadingGroups digits.cell len offset kept ∧
      assignLeading sign sumExp digits len =
        some (calcDescAndAssign sign (sumExp - offset) kept) := by
  obtain ⟨offset, hoffset, hskip, hzeros, hhead⟩ := @skipZeros_spec digits len 0
    (by omega) (by simpa only [Nat.zero_add] using hne)
  simp only [Nat.zero_add] at hskip hzeros hhead
  have hnine : maxDecimalDigit = 9 := rfl
  obtain ⟨stop, hlo, hstop, hdrop, hlast, htail⟩ := @dropZeros_spec digits offset
    (offset + min (len - offset) maxDecimalDigit) (by omega) (by omega) hhead
  have hslice := CheckedArray.slice?_eq (by omega : offset + (stop - offset) ≤ digits.size)
  refine ⟨offset, ByteMemory.segment digits.cell offset (stop - offset),
    ⟨hoffset, hzeros, ⟨?_, ?_, ?_⟩, ?_, ?_⟩, ?_⟩
  · intro d hd
    obtain ⟨i, -, rfl⟩ := List.mem_map.mp hd
    exact hlt _
  · rwa [digitAt_segment (by omega), Nat.add_zero]
  · rw [ByteMemory.length_segment, digitAt_segment (by omega)]
    rwa [show offset + (stop - offset - 1) = stop - 1 by omega]
  · rw [ByteMemory.length_segment]
    omega
  · intro j hj
    rcases Nat.lt_or_ge j (stop - offset) with hlt' | hge
    · exact digitAt_segment hlt'
    rw [digitAt_of_le (by rwa [ByteMemory.length_segment])]
    rcases Nat.lt_or_ge (offset + j) len with hin | hout
    · exact (htail _ (by omega) (by omega)).symm
    · exact (hbehind _ hout).symm
  · simp only [assignLeading, hskip, bind_some, hdrop, hslice, map_some]

end

/-! ### Digits of a quotient -/

section

variable {x : ObDivArray} {w : Int} {size : Nat}

theorem uint32Digits_spec (hx : x.Holds w) (hlen : x.len ≤ size) :
    (∀ i, (x.getUint32Digits size).cell i < base) ∧
      (∀ i, x.len ≤ i → (x.getUint32Digits size).cell i = 0) ∧
      ((window base (x.getUint32Digits size).cell 0 x.len : Nat) : Int) = w := by
  have hbase : ObDivArray.base = (base : Int) := rfl
  have hsmall : (base : Int) < 2 ^ 32 := by decide
  have hcell : ∀ i, i < x.len →
      ((x.getUint32Digits size).cell i : Int) = x.digits.cell (x.len - 1 - i) := by
    intro i hi
    obtain ⟨hlow, hhigh⟩ := hx.cell (by omega : x.len - 1 - i < x.len)
    simp only [getUint32Digits, hlen, hi, and_self, if_true]
    rw [Int.emod_eq_of_lt hlow (by omega), Int.toNat_of_nonneg hlow]
  have hbehind : ∀ i, x.len ≤ i → (x.getUint32Digits size).cell i = 0 := by
    intro i hi
    simp only [getUint32Digits, not_lt.mpr hi, and_false, if_false]
  refine ⟨fun i => ?_, hbehind, ?_⟩
  · rcases Nat.lt_or_ge i x.len with hi | hi
    · have := (hx.cell (by omega : x.len - 1 - i < x.len)).2
      have := hcell i hi
      omega
    · rw [hbehind i hi]
      exact base_pos
  · rw [← window_natCast, ← hx.value, Limbs.limbs_eq_window]
    apply window_congr
    intro j hj
    simpa only [Nat.zero_add] using hcell j hj

theorem isZero_of_holds (hx : x.Holds w) (hlen : x.len ≤ size) (hw : w ≠ 0) :
    x.isZero = false ∧ ∃ i, i < x.len ∧ (x.getUint32Digits size).cell i ≠ 0 := by
  obtain ⟨-, -, hwindow⟩ := uint32Digits_spec hx hlen
  constructor
  · by_contra hzero
    simp only [Bool.not_eq_false, ObDivArray.isZero, List.all_eq_true, List.mem_range,
      beq_iff_eq] at hzero
    refine hw (hx.value.symm.trans (Limbs.limbs_of_zeros fun i hi => ?_))
    simpa only [Nat.zero_add] using hzero i hi
  by_contra hnone
  push Not at hnone
  apply hw
  rw [← hwindow, window_of_zeros fun j hj => ?_, cast_zero]
  simpa only [Nat.zero_add] using hnone j hj

/-- A quotient of at least nine groups in ten places has at most one zero group in
front; nine groups from there on determine it up to their last place. -/
theorem leading_nine {cell : Nat → Nat} {offset : Nat} (hlt : ∀ i, cell i < base)
    (hlow : base ^ 8 ≤ window base cell 0 10) (hzeros : ∀ j, j < offset → cell j = 0) :
    offset ≤ 1 ∧ window base cell offset 9 * base ^ (1 - offset) ≤ window base cell 0 10 ∧
      window base cell 0 10 + 1 ≤ (window base cell offset 9 + 1) * base ^ (1 - offset) := by
  have hoffset : offset ≤ 1 := by
    by_contra hmany
    have hlead : window base cell 0 10 = window base cell (0 + 2) 8 :=
      window_lead (m := 2) (n := 8) fun j hj => by
        rw [Nat.zero_add]
        exact hzeros j (by omega)
    have hupper : window base cell (0 + 2) 8 < base ^ 8 := window_lt fun j _ => hlt _
    omega
  refine ⟨hoffset, ?_⟩
  rcases le_one_iff_eq_zero_or_eq_one.mp hoffset with rfl | rfl
  · have hsnoc : window base cell 0 10 = window base cell 0 9 * base + cell (0 + 9) :=
      window_snoc
    have hdigit := hlt (0 + 9)
    rw [Nat.sub_zero, pow_one, Nat.add_mul, Nat.one_mul]
    omega
  have hlead : window base cell 0 10 = window base cell (0 + 1) 9 :=
    window_lead (m := 1) (n := 9) fun j hj => by
      rw [Nat.zero_add]
      exact hzeros j hj
  rw [Nat.sub_self, pow_zero, Nat.mul_one, Nat.mul_one, hlead]
  exact ⟨le_rfl, le_rfl⟩

end

section

variable {a b : ObNumber} (ha : a.Stored) (hb : b.Stored)

/-- The digits of a number in an array of `size` places. -/
def extended (x : ObNumber) (size : Nat) : Nat :=
  window base (digitAt x.digits) 0 x.len * base ^ (size - x.len)

variable {x : ObNumber} {size : Nat}

theorem magnitude_eq_extended (hlen : x.len ≤ size) :
    x.magnitude = (extended x size : ℚ) * (base : ℚ) ^ (x.getDecodeExp - size + 1) := by
  rw [magnitude, scaled, extended, cast_mul, mul_assoc, base_zpow_mul]
  congr 2
  omega

theorem Stored.le_extended (hx : x.Stored) (hlen : x.len ≤ size) :
    base ^ (size - 1) ≤ extended x size := by
  obtain ⟨k, hk⟩ : ∃ k, x.len = k + 1 := exists_eq_succ_of_ne_zero hx.len_pos.ne'
  have hwindow : base ^ k ≤ window base (digitAt x.digits) 0 x.len := by
    rw [hk]
    exact pow_le_window hx.normal.head_ne
  calc base ^ (size - 1) = base ^ k * base ^ (size - x.len) := by
        rw [← Nat.pow_add]
        congr 1
        omega
    _ ≤ extended x size := Nat.mul_le_mul_right _ hwindow

theorem Stored.extended_lt (hx : x.Stored) (hlen : x.len ≤ size) :
    extended x size < base ^ size := by
  have hwindow : window base (digitAt x.digits) 0 x.len < base ^ x.len :=
    window_lt fun j _ => digitAt_lt hx.normal.lt_base _
  calc extended x size < base ^ x.len * base ^ (size - x.len) :=
        Nat.mul_lt_mul_of_pos_right hwindow (Nat.pow_pos base_pos)
    _ = base ^ size := by
        rw [← Nat.pow_add]
        congr 1
        omega

theorem Stored.fromDigits (hx : x.Stored) (hlen : x.len ≤ size)
    (hsize : size ≤ remBufferSize) (junk : Nat → Int) :
    ∃ y, fromDigits junk x.digits size = some y ∧ y.len = size ∧
      y.Holds (extended x size : Nat) ∧ y.digits.cell (y.len - 1) ≠ 0 := by
  obtain ⟨y, hy, hylen, hholds, hcells⟩ :=
    fromDigits_spec junk hx.normal.lt_base hlen hsize
  refine ⟨y, hy, hylen, hholds, ?_⟩
  have htop := hcells 0 hx.len_pos
  rw [Nat.sub_zero] at htop
  rw [hylen, htop]
  exact_mod_cast hx.normal.head_ne

include ha hb

theorem knuthDivV2_exact (junk : Nat → Int) :
    ∃ x y q r, fromDigits junk a.digits (b.len + 9) = some x ∧
      fromDigits junk b.digits b.len = some y ∧
      knuthDivV2 junk x y = some (q, r) ∧ q.len = 10 ∧
      q.Holds ((extended a (b.len + 9) / extended b b.len : Nat) : Int) := by
  have hstore : maxStoreLen = 9 := rfl
  have hbuffer : remBufferSize = 32 := rfl
  have halen := ha.len_le
  have hblen := hb.len_le
  obtain ⟨x, hx, hxlen, hxholds, -⟩ := ha.fromDigits (by omega : a.len ≤ b.len + 9)
    (by omega) junk
  obtain ⟨y, hy, hylen, hyholds, hytop⟩ := hb.fromDigits (le_refl b.len) (by omega) junk
  have hpos := hb.len_pos
  obtain ⟨d, q, r, -, -, hdiv, hqlen, hq, -⟩ := knuthDivV2_spec hxholds hyholds
    (by omega) hytop (by omega) (by omega) junk
  exact ⟨x, y, q, r, hx, hy, hdiv, by omega, by exact_mod_cast hq⟩

theorem quotient_bounds : (extended a (b.len + 9) / extended b b.len : Nat) *
        (base : ℚ) ^ (a.getDecodeExp - b.getDecodeExp - 9) ≤ |a.value / b.value| ∧
      |a.value / b.value| < ((extended a (b.len + 9) / extended b b.len : Nat) + 1) *
        (base : ℚ) ^ (a.getDecodeExp - b.getDecodeExp - 9) := by
  have hbaseq : (0 : ℚ) < base := by exact_mod_cast base_pos
  have hstore : maxStoreLen = 9 := rfl
  have halen := ha.len_le
  have hbpos : 0 < extended b b.len :=
    lt_of_lt_of_le (Nat.pow_pos base_pos) (hb.le_extended (le_refl b.len))
  have hexact : |a.value / b.value| = (extended a (b.len + 9) : ℚ) / (extended b b.len : ℚ) *
        (base : ℚ) ^ (a.getDecodeExp - b.getDecodeExp - 9) := by
    have hsplit : (base : ℚ) ^ (a.getDecodeExp - (b.len + 9 : Nat) + 1) =
        (base : ℚ) ^ (a.getDecodeExp - b.getDecodeExp - 9) *
          (base : ℚ) ^ (b.getDecodeExp - b.len + 1) := by
      rw [← zpow_add₀ hbaseq.ne']
      congr 1
      push_cast
      ring
    rw [abs_div, abs_value, abs_value, magnitude_eq_extended (by omega : a.len ≤ b.len + 9),
      magnitude_eq_extended (le_refl b.len), hsplit]
    field_simp
  have hunit : (0 : ℚ) < (base : ℚ) ^ (a.getDecodeExp - b.getDecodeExp - 9) :=
    zpow_pos hbaseq _
  have hbq : (0 : ℚ) < (extended b b.len : ℚ) := by exact_mod_cast hbpos
  rw [hexact]
  constructor
  · apply mul_le_mul_of_nonneg_right _ hunit.le
    rw [le_div_iff₀ hbq]
    exact_mod_cast div_mul_le_self _ _
  · apply mul_lt_mul_of_pos_right _ hunit
    rw [div_lt_iff₀ hbq, mul_comm]
    exact_mod_cast lt_mul_div_succ _ hbpos

theorem divDigits_spec (junk : Nat → Int) : ∃ e kept, divDigits junk a b maxDecimalDigit =
        some (calcDescAndAssign (quotientSign a b) e kept) ∧
      Normal kept ∧ -30 ≤ e ∧ e ≤ 29 ∧
      ((window base (digitAt kept) 0 9 : Nat) : ℚ) * (base : ℚ) ^ (e - 8) ≤
        |a.value / b.value| ∧
      |a.value / b.value| <
        (((window base (digitAt kept) 0 9 : Nat) : ℚ) + 1) * (base : ℚ) ^ (e - 8) := by
  obtain ⟨x, y, q, r, hx, hy, hdiv, hqlen, hq⟩ := knuthDivV2_exact ha hb junk
  obtain ⟨hlow, hhigh⟩ := quotient_bounds ha hb
  have hstore : maxStoreLen = 9 := rfl
  have hint : maxIntegerExp = 14 := rfl
  have hdec : maxDecimalExp = 15 := rfl
  have halen := ha.len_le
  have hblen := hb.len_le
  have hQlow : base ^ 8 ≤ extended a (b.len + 9) / extended b b.len := by
    have hbig := ha.le_extended (by omega : a.len ≤ b.len + 9)
    have hsmall := (hb.extended_lt (le_refl b.len)).le
    rw [Nat.le_div_iff_mul_le (lt_of_lt_of_le (Nat.pow_pos base_pos)
      (hb.le_extended (le_refl b.len)))]
    calc base ^ 8 * extended b b.len ≤ base ^ 8 * base ^ b.len := Nat.mul_le_mul_left _ hsmall
      _ = base ^ (b.len + 9 - 1) := by rw [← Nat.pow_add]; congr 1; omega
      _ ≤ _ := hbig
  generalize extended a (b.len + 9) / extended b b.len = Q at hq hlow hhigh hQlow
  have hfit : q.len ≤ multBufferSize := by rw [hqlen]; decide
  obtain ⟨hlt, hbehind, hwindow⟩ := uint32Digits_spec hq hfit
  have hQne : (Q : Int) ≠ 0 := by
    have : 0 < base ^ 8 := Nat.pow_pos base_pos
    omega
  obtain ⟨hzero, hne⟩ := isZero_of_holds hq hfit hQne
  obtain ⟨offset, kept, hkept, hassign⟩ := assignLeading_spec
    (quotientSign a b) (a.getDecodeExp - b.getDecodeExp)
    hlt hbehind hfit hne
  have hsize : min divBufferSize (min (b.len + maxDecimalDigit) divBufferSize) = b.len + 9 := by
    have h1 : divBufferSize = 20 := rfl
    have h2 : maxDecimalDigit = 9 := rfl
    omega
  have hresult : divDigits junk a b maxDecimalDigit = some (calcDescAndAssign (quotientSign a b)
      (a.getDecodeExp - b.getDecodeExp - offset) kept) := by
    simp only [divDigits, hsize, hx, hy, bind_some, divV2, hdiv,
      map_some, hzero, Bool.false_eq_true, if_false, hassign]
  have hkeptw : window base (digitAt kept) 0 9 =
      window base (q.getUint32Digits multBufferSize).cell offset 9 := by
    apply window_congr
    intro j hj
    simpa only [Nat.zero_add] using hkept.digit j hj
  rw [hqlen] at hwindow
  have hQ : window base (q.getUint32Digits multBufferSize).cell 0 10 = Q := by
    exact_mod_cast hwindow
  obtain ⟨hoffset, hWlow, hWhigh⟩ := leading_nine hlt (by rwa [hQ]) hkept.zeros
  rw [← hkeptw, hQ] at hWlow hWhigh
  have ha1 := ha.exp_ge
  have ha2 := ha.exp_le
  have hb1 := hb.exp_ge
  have hb2 := hb.exp_le
  refine ⟨_, kept, hresult, hkept.normal, by omega, by omega, ?_⟩
  have hunit : (0 : ℚ) < (base : ℚ) ^ (a.getDecodeExp - b.getDecodeExp - 9) :=
    zpow_pos (by exact_mod_cast base_pos) _
  have hpow : (base : ℚ) ^ (a.getDecodeExp - b.getDecodeExp - offset - 8) =
      ((base ^ (1 - offset) : Nat) : ℚ) * (base : ℚ) ^ (a.getDecodeExp - b.getDecodeExp - 9) := by
    rw [base_zpow_mul]
    congr 1
    omega
  rw [hpow, ← mul_assoc, ← mul_assoc]
  constructor
  · refine le_trans (mul_le_mul_of_nonneg_right ?_ hunit.le) hlow
    exact_mod_cast hWlow
  · refine lt_of_lt_of_le hhigh (mul_le_mul_of_nonneg_right ?_ hunit.le)
    exact_mod_cast hWhigh

omit ha hb in
theorem roundAfterArithmetic_eq (hlt : ∀ d ∈ x.digits, d < base) :
    roundAfterArithmetic (.ok x) = (x.roundScaleV3 floatingScale true).map .ok := by
  rcases Nat.lt_or_ge 8 x.len with hlong | hshort
  · have hmin : minRoundDigitCount = 8 := rfl
    simp only [roundAfterArithmetic, if_pos (by omega : minRoundDigitCount ≤ x.len)]
  · rw [roundAfterArithmetic_ok hlt hshort, roundScaleV3_of_len_le hlt hshort]
    rfl

theorem divV3_eq (junk : Nat → Int) : divV3 junk a b maxDecimalDigit true =
      (divDigits junk a b maxDecimalDigit).bind roundAfterArithmetic := by
  simp only [divV3, ha.isZero, hb.isZero, Bool.false_eq_true, if_false, if_true]

end

/-- What a division with the exact quotient `v` of leading exponent `e` is to return: the
rounded quotient in canonical form, or the verdict on an exponent out of range. -/
def ReturnsRounded (call : Option (Except NumberRet ObNumber)) (sign : NumberSign) (e : Int)
    (v : ℚ) : Prop :=
  (14 < e → call = some (.error .integerPrecisionOverflow)) ∧
    (e < -15 → call = some (.ok zero)) ∧
    (-15 ≤ e → e ≤ 14 → ∃ r, call = some (.ok r) ∧
      r.value = signFactor sign * roundedValue e |v| ∧ r.Canonical)

/-- Algorithm D yields the exact quotient of the extended digits.  The number returned is
the exact quotient rounded half away from zero, and the division is right exactly when the
rounding does not carry a quotient in range to an exponent `d` beyond it. -/
theorem divV3_rounds (junk : Nat → Int) {a b : ObNumber} (ha : a.Stored) (hb : b.Stored) :
    (∃ x y q r, fromDigits junk a.digits (b.len + 9) = some x ∧
      fromDigits junk b.digits b.len = some y ∧
      knuthDivV2 junk x y = some (q, r) ∧
      q.Holds ((extended a (b.len + 9) / extended b b.len : Nat) : Int)) ∧
    ∃ e d, Leads base e (a.value / b.value) ∧
      Leads base d (signFactor (quotientSign a b) * roundedValue e |a.value / b.value|) ∧
      (-15 ≤ e → e ≤ 14 → ∃ r, divV3 junk a b maxDecimalDigit true = some (.ok r) ∧
        r.value = signFactor (quotientSign a b) * roundedValue e |a.value / b.value|) ∧
      (ReturnsRounded (divV3 junk a b maxDecimalDigit true) (quotientSign a b) e
        (a.value / b.value) ↔ 14 < e ∨ d ≤ 14) := by
  refine ⟨?_, ?_⟩
  · obtain ⟨x, y, q, r, hx, hy, hdiv, -, hq⟩ := knuthDivV2_exact ha hb junk
    exact ⟨x, y, q, r, hx, hy, hdiv, hq⟩
  obtain ⟨e, kept, hdigits, hnormal, helow, hehigh, hvlow, hvhigh⟩ := divDigits_spec ha hb junk
  obtain ⟨r, hround, hrounds, -⟩ := @roundScaleV3_rounds
    (quotientSign a b) kept e _ hnormal (by omega) (by omega)
    hvlow hvhigh
  have hlead := hrounds.lead
  have hcall : -15 ≤ e → e ≤ 14 → divV3 junk a b maxDecimalDigit true = some (.ok r) := by
    intro hlow hhigh
    rw [divV3_eq ha hb junk, hdigits, bind_some, calcDescAndAssign_ok hlow hhigh,
      roundAfterArithmetic_eq hnormal.lt_base, hround]
    rfl
  refine ⟨e, r.getDecodeExp, leads_of_groups hnormal hvlow hvhigh, hrounds.leads,
    fun hlow hhigh => ⟨r, hcall hlow hhigh, hrounds.value_eq⟩, ?_, ?_⟩
  · rintro ⟨-, -, hrounded⟩
    by_cases hrange : -15 ≤ e ∧ e ≤ 14
    · obtain ⟨r', hcall', -, hcanonical⟩ := hrounded hrange.1 hrange.2
      rw [hcall hrange.1 hrange.2] at hcall'
      cases hcall'
      rcases hcanonical with rfl | hstored
      · exact absurd (hrounds.value_eq.symm.trans value_zero) (hrounds.leads.ne_zero base_pos)
      · exact Or.inr hstored.exp_le
    · omega
  · intro hcond
    refine ⟨fun he => ?_, fun he => ?_, fun hlow hhigh => ?_⟩
    · rw [divV3_eq ha hb junk, hdigits, bind_some, calcDescAndAssign_overflow (by omega) he]
      rfl
    · rw [divV3_eq ha hb junk, hdigits, bind_some, calcDescAndAssign_underflow (by omega) he]
      rfl
    · exact ⟨r, hcall hlow hhigh, hrounds.value_eq, hrounds.canonical (by omega) (by omega)⟩

theorem divV3_rounds_third :
    let a : ObNumber := { sign := .positive, exp := 64, digits := [1] }
    let b : ObNumber := { sign := .negative, exp := 64, digits := [3] }
    a.Stored ∧ b.Stored ∧ ∃ r, divV3 (fun _ => 0) a b maxDecimalDigit true = some (.ok r) ∧
      r.value = signFactor .negative * roundedValue (-1) |a.value / b.value| := by
  intro a b
  have ha : a.Stored := ⟨⟨by decide, by decide, by decide⟩, by decide, by decide, by decide⟩
  have hb : b.Stored := ⟨⟨by decide, by decide, by decide⟩, by decide, by decide, by decide⟩
  have hleads : Leads base (-1) (a.value / b.value) := by
    constructor <;> norm_num [a, b, value, magnitude, scaled, signFactor, getDecodeExp, expZero,
      len, window, digitAt, base, abs_div]
  obtain ⟨-, e, d, he, -, hround, -⟩ := divV3_rounds (fun _ => 0) ha hb
  obtain rfl := hleads.unique one_lt_base he
  exact ⟨ha, hb, hround (by decide) (by decide)⟩

/-- The largest stored number. -/
def nines : ObNumber :=
  { sign := .positive, exp := 78, digits := List.replicate 9 999999999 }

/-- Divided by one, the largest number is rounded up to an exponent out of range. -/
theorem divV3_carries_out : nines.Stored ∧ (one .positive).Stored ∧
      divV3 (fun _ => 0) nines (one .positive) maxDecimalDigit true =
        some (.ok { sign := .positive, exp := 79, digits := [1] }) ∧
      ¬ ({ sign := .positive, exp := 79, digits := [1] } : ObNumber).Canonical := by
  refine ⟨⟨⟨by decide, by decide, by decide⟩, by decide, by decide, by decide⟩,
    ⟨⟨by decide, by decide, by decide⟩, by decide, by decide, by decide⟩,
    by decide +kernel, ?_⟩
  rintro (hzero | hstored)
  · exact absurd hzero (by decide)
  · exact absurd hstored.exp_le (by decide)

end SeekDB.ObNumber
