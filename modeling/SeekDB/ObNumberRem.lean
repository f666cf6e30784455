/-
Remainder of numbers: both operands are brought to the lower of their last
exponents as arrays of digits, and the remainder of the arrays is taken.
-/
import SeekDB.ObNumberDiv

namespace SeekDB.ObNumber

open ObDivArray List Positional

def absCompare (x other : ObNumber) : Ordering :=
  match x.sign, other.sign with
  | .positive, .positive => x.compare other
  | .positive, .negative => x.compare other.negate
  | .negative, .negative => (x.compare other).swap
  | .negative, .positive => x.negate.compare other

/-- The exponent of the last group. -/
def lowExp (x : ObNumber) : Int := x.getDecodeExp - (x.len - 1)

/-- The places of an operand whose last group is moved to the exponent `low`. -/
def movedSize (x : ObNumber) (low : Int) : Nat := (x.len - 1 + max 0 (x.lowExp - low) + 1).toNat

/-- The remainder when the dividend has the larger absolute value. -/
def remDigits (junk : Nat → Int) (x other : ObNumber) : Option (Except NumberRet ObNumber) :=
  (fromDigits junk x.digits (x.movedSize other.lowExp)).bind fun dividend =>
    (fromDigits junk other.digits (other.movedSize x.lowExp)).bind fun divisor =>
      (ObDivArray.rem junk dividend divisor).bind fun rem =>
        if rem.isZero then some (.ok zero)
        else
          assignLeading x.sign other.getDecodeExp
            (rem.getUint32Digits remBufferSize) rem.len

def remV3 (junk : Nat → Int) (x other : ObNumber) : Option (Except NumberRet ObNumber) :=
  if other.isZero then some (.error .divisionByZero)
  else if x.isZero then some (.ok zero)
  else
    match x.absCompare other with
    | .eq => some (.ok zero)
    -- The return code of the copy is dropped.
    | .lt => some (.ok ((deepCopyV3 x).toOption.getD zero))
    | .gt => remDigits junk x other

/-! ### Comparison of absolute values -/

section

variable {x y : ObNumber} {xs ys : List Nat} {n : Nat}

/-- No zero group at the end. -/
def Trimmed (digits : List Nat) : Prop := ∀ i, i + 1 = digits.length → digitAt digits i ≠ 0

theorem Trimmed.tail {d : Nat} (h : Trimmed (d :: xs)) : Trimmed xs :=
  fun i hi => h (i + 1) (congrArg (· + 1) hi)

theorem Normal.trimmed (h : Normal xs) : Trimmed xs := by
  intro i hi
  have hlast := h.last_ne
  rwa [show xs.length - 1 = i by omega] at hlast

theorem Trimmed.window_pos (h : Trimmed xs) (hne : xs ≠ []) (hlen : xs.length ≤ n) :
    0 < window base (digitAt xs) 0 n := by
  obtain ⟨k, hk⟩ := Nat.exists_eq_succ_of_ne_zero (length_pos_iff.mpr hne).ne'
  apply Positional.window_pos base_pos (by omega : k < n)
  rw [Nat.zero_add]
  exact h k hk.symm

theorem window_nil : window base (digitAt []) 0 n = 0 := window_of_zeros fun _ _ => rfl

theorem window_cons (d : Nat) :
    window base (digitAt (d :: xs)) 0 (n + 1) = d * base ^ n + window base (digitAt xs) 0 n := by
  rw [window_succ]
  congr 1
  apply window_congr
  intro j _
  rw [Nat.zero_add, Nat.zero_add, Nat.add_comm 1 j]
  rfl

theorem compare_strictMono {α β : Type} [LinearOrder α] [LinearOrder β] {f : α → β}
    (hf : StrictMono f) (a b : α) : Ord.compare (f a) (f b) = Ord.compare a b := by
  rw [← cmp_eq_compare, ← cmp_eq_compare, hf.cmp_map_eq]

theorem uint32cmp_eq_compare (hx : ∀ d ∈ xs, d < base) (hy : ∀ d ∈ ys, d < base)
    (htx : Trimmed xs) (hty : Trimmed ys) (hxn : xs.length ≤ n) (hyn : ys.length ≤ n) :
    (uint32cmp xs ys).then (Ord.compare xs.length ys.length) =
      Ord.compare (window base (digitAt xs) 0 n) (window base (digitAt ys) 0 n) := by
  induction xs generalizing ys n with
  | nil =>
    rw [window_nil]
    rcases ys with _ | ⟨b, ys⟩
    · rw [window_nil]
      rfl
    · rw [compare_lt_iff_lt.mpr (hty.window_pos (cons_ne_nil b ys) hyn)]
      exact compare_lt_iff_lt.mpr (Nat.succ_pos ys.length)
  | cons a xs ih =>
    rcases ys with _ | ⟨b, ys⟩
    · rw [window_nil, compare_gt_iff_gt.mpr (htx.window_pos (cons_ne_nil a xs) hxn)]
      exact compare_gt_iff_gt.mpr (Nat.succ_pos xs.length)
    obtain ⟨m, rfl⟩ : ∃ m, n = m + 1 := Nat.exists_eq_succ_of_ne_zero (by
      rintro rfl
      exact absurd hxn (Nat.not_succ_le_zero _))
    have hxlt : window base (digitAt xs) 0 m < base ^ m :=
      window_lt fun j _ => digitAt_lt (fun d hd => hx d (mem_cons_of_mem a hd)) _
    have hylt : window base (digitAt ys) 0 m < base ^ m :=
      window_lt fun j _ => digitAt_lt (fun d hd => hy d (mem_cons_of_mem b hd)) _
    rw [window_cons, window_cons]
    rcases Nat.lt_trichotomy a b with hlt | rfl | hgt
    · have hmul := Nat.mul_le_mul_right (base ^ m) hlt
      rw [Nat.succ_mul] at hmul
      have hwindow : a * base ^ m + window base (digitAt xs) 0 m <
          b * base ^ m + window base (digitAt ys) 0 m := by omega
      rw [uint32cmp, compare_lt_iff_lt.mpr hlt, compare_lt_iff_lt.mpr hwindow]
      rfl
    · have htail := ih (fun d hd => hx d (mem_cons_of_mem a hd))
        (fun d hd => hy d (mem_cons_of_mem a hd)) htx.tail hty.tail
        (Nat.le_of_succ_le_succ hxn) (Nat.le_of_succ_le_succ hyn)
      rw [uint32cmp, compare_eq_iff_eq.mpr rfl, Ordering.eq_then, length_cons,
        length_cons, compare_strictMono (add_left_strictMono (a := 1)),
        compare_strictMono (add_right_strictMono (a := a * base ^ m)), htail]
    have hmul := Nat.mul_le_mul_right (base ^ m) hgt
    rw [Nat.succ_mul] at hmul
    have hwindow : b * base ^ m + window base (digitAt ys) 0 m <
        a * base ^ m + window base (digitAt xs) 0 m := by omega
    rw [uint32cmp, compare_gt_iff_gt.mpr hgt, compare_gt_iff_gt.mpr hwindow]
    rfl

section

variable (hx : x.Stored)

include hx

/-- The magnitude in units of the exponent `e - 8`. -/
theorem Stored.magnitude_eq_nine :
    x.magnitude = ((window base (digitAt x.digits) 0 9 : Nat) : ℚ) *
      (base : ℚ) ^ (x.getDecodeExp - 8) := by
  have hstore : maxStoreLen = 9 := rfl
  have hlen := hx.len_le
  have htrim : scaled base (digitAt x.digits) x.getDecodeExp 0 (x.len + (9 - x.len)) =
      scaled base (digitAt x.digits) x.getDecodeExp 0 x.len :=
    scaled_trim base_pos fun j _ => digitAt_of_le (by rw [len]; omega)
  rw [magnitude, ← htrim, Nat.add_sub_of_le (by omega), scaled]
  congr 2
  ring

theorem compare_magnitude (hy : y.Stored) :
    (Ord.compare x.getDecodeExp y.getDecodeExp).then
        ((uint32cmp x.digits y.digits).then (Ord.compare x.len y.len)) =
      Ord.compare x.magnitude y.magnitude := by
  have hone : (1 : ℚ) ≤ base := by exact_mod_cast base_pos
  have hxleads := hx.leads
  have hyleads := hy.leads
  rcases lt_trichotomy x.getDecodeExp y.getDecodeExp with hlt | heq | hgt
  · have hmagnitude : x.magnitude < y.magnitude := by
      rw [← abs_value x, ← abs_value y]
      calc |x.value| < (base : ℚ) ^ (x.getDecodeExp + 1) := hxleads.upper
        _ ≤ (base : ℚ) ^ y.getDecodeExp := zpow_le_zpow_right₀ hone hlt
        _ ≤ |y.value| := hyleads.lower
    rw [compare_lt_iff_lt.mpr hlt, compare_lt_iff_lt.mpr hmagnitude]
    rfl
  · have hunit : (0 : ℚ) < (base : ℚ) ^ (x.getDecodeExp - 8) :=
      zpow_pos (by exact_mod_cast base_pos) _
    have hmono : StrictMono fun m : Nat => (m : ℚ) * (base : ℚ) ^ (x.getDecodeExp - 8) :=
      fun m n hmn => mul_lt_mul_of_pos_right (by exact_mod_cast hmn) hunit
    have hdigits := uint32cmp_eq_compare hx.normal.lt_base hy.normal.lt_base hx.normal.trimmed
      hy.normal.trimmed hx.len_le hy.len_le
    rw [compare_eq_iff_eq.mpr heq, Ordering.eq_then, hx.magnitude_eq_nine,
      hy.magnitude_eq_nine, ← heq, compare_strictMono hmono]
    exact hdigits
  · have hmagnitude : y.magnitude < x.magnitude := by
      rw [← abs_value x, ← abs_value y]
      calc |y.value| < (base : ℚ) ^ (y.getDecodeExp + 1) := hyleads.upper
        _ ≤ (base : ℚ) ^ x.getDecodeExp := zpow_le_zpow_right₀ hone hgt
        _ ≤ |x.value| := hxleads.lower
    rw [compare_gt_iff_gt.mpr hgt, compare_gt_iff_gt.mpr hmagnitude]
    rfl

theorem compare_of_positive (hy : y.Stored) (hxs : x.sign = .positive)
    (hys : y.sign = .positive) : x.compare y = Ord.compare x.magnitude y.magnitude := by
  have hxe : x.getDecodeExp = (x.signExp : Int) - 128 - expZero := by
    simp only [getDecodeExp, signExp, hxs]
    omega
  have hye : y.getDecodeExp = (y.signExp : Int) - 128 - expZero := by
    simp only [getDecodeExp, signExp, hys]
    omega
  rw [← compare_magnitude hx hy, ObNumber.compare]
  rcases lt_trichotomy x.signExp y.signExp with hlt | heq | hgt
  · have hexp : x.getDecodeExp < y.getDecodeExp := by omega
    rw [if_neg hlt.ne, compare_lt_iff_lt.mpr hlt, compare_lt_iff_lt.mpr hexp]
    rfl
  · have hexp : x.getDecodeExp = y.getDecodeExp := by omega
    simp only [if_pos heq, hxs, reduceCtorEq, if_false, compare_eq_iff_eq.mpr hexp,
      Ordering.eq_then]
  · have hexp : y.getDecodeExp < x.getDecodeExp := by omega
    rw [if_neg hgt.ne', compare_gt_iff_gt.mpr hgt, compare_gt_iff_gt.mpr hexp]
    rfl

theorem compare_of_negative (hy : y.Stored) (hxs : x.sign = .negative)
    (hys : y.sign = .negative) : (x.compare y).swap = Ord.compare x.magnitude y.magnitude := by
  have hxe : x.getDecodeExp = expZero - (x.signExp : Int) := by
    simp only [getDecodeExp, signExp, hxs]
  have hye : y.getDecodeExp = expZero - (y.signExp : Int) := by
    simp only [getDecodeExp, signExp, hys]
  rw [← compare_magnitude hx hy, ObNumber.compare]
  rcases lt_trichotomy x.signExp y.signExp with hlt | heq | hgt
  · have hexp : y.getDecodeExp < x.getDecodeExp := by omega
    rw [if_neg hlt.ne, compare_lt_iff_lt.mpr hlt, compare_gt_iff_gt.mpr hexp]
    rfl
  · have hexp : x.getDecodeExp = y.getDecodeExp := by omega
    simp only [if_pos heq, hxs, if_true, compare_eq_iff_eq.mpr hexp, Ordering.eq_then,
      Ordering.swap_swap]
  · have hexp : x.getDecodeExp < y.getDecodeExp := by omega
    rw [if_neg hgt.ne', compare_gt_iff_gt.mpr hgt, compare_lt_iff_lt.mpr hexp]
    rfl

theorem absCompare_eq (hy : y.Stored) :
    x.absCompare y = Ord.compare x.magnitude y.magnitude := by
  rcases hxs : x.sign with _ | _ <;> rcases hys : y.sign with _ | _
  · rw [absCompare, hxs, hys]
    exact compare_of_negative hx hy hxs hys
  · rw [absCompare, hxs, hys, ← hx.magnitude_negate]
    exact compare_of_positive hx.negate hy (by rw [hx.negate_eq, hxs]; rfl) hys
  · rw [absCompare, hxs, hys, ← hy.magnitude_negate]
    exact compare_of_positive hx hy.negate hxs (by rw [hy.negate_eq, hys]; rfl)
  · rw [absCompare, hxs, hys]
    exact compare_of_positive hx hy hxs hys

end

end

/-! ### The remainder -/

/-- The remainder of `v` by `w` for the quotient cut towards zero. -/
structure IsRemainder (v w r : ℚ) : Prop where
  quotient : ∃ q : ℤ, v = q * w + r
  abs_lt : |r| < |w|
  sign : r = 0 ∨ 0 < r * v

section

variable {a b : ObNumber}

/-- The places both operands take when they are brought to one unit. -/
def commonLow (a b : ObNumber) : Int := min a.lowExp b.lowExp

theorem movedSize_left (a b : ObNumber) :
    (a.movedSize b.lowExp : Int) = a.getDecodeExp - commonLow a b + 1 := by
  rw [movedSize, commonLow, lowExp, lowExp]
  omega

theorem movedSize_right (a b : ObNumber) :
    (b.movedSize a.lowExp : Int) = b.getDecodeExp - commonLow a b + 1 := by
  rw [movedSize, commonLow, lowExp, lowExp]
  omega

theorem len_le_movedSize (a : ObNumber) (low : Int) : a.len ≤ a.movedSize low := by
  rw [movedSize]
  omega

theorem getDecodeExp_le_of_magnitude_lt (ha : a.Stored) (hb : b.Stored)
    (hlt : b.magnitude < a.magnitude) : b.getDecodeExp ≤ a.getDecodeExp := by
  by_contra hexp
  have hcompare := compare_magnitude ha hb
  rw [compare_lt_iff_lt.mpr (not_le.mp hexp), compare_gt_iff_gt.mpr hlt] at hcompare
  exact absurd hcompare (by simp)

theorem movedSize_divisor (ha : a.Stored) (hb : b.Stored) (hlt : b.magnitude < a.magnitude) :
    b.movedSize a.lowExp ≤ a.movedSize b.lowExp ∧ b.movedSize a.lowExp ≤ 9 := by
  have hexp := getDecodeExp_le_of_magnitude_lt ha hb hlt
  have hleft := movedSize_left a b
  have hright := movedSize_right a b
  have hstore : maxStoreLen = 9 := rfl
  have halen := ha.len_le
  have hblen := hb.len_le
  have hlow : commonLow a b =
      min (a.getDecodeExp - (a.len - 1)) (b.getDecodeExp - (b.len - 1)) := rfl
  constructor <;> omega

theorem isZero_of_holds_zero {x : ObDivArray} (hx : x.Holds 0) : x.isZero = true := by
  simp only [ObDivArray.isZero, all_eq_true, mem_range, beq_iff_eq]
  intro i hi
  have := hx.digits.eq_zero ObDivArray.base_pos hx.value i hi
  rwa [Nat.zero_add] at this

theorem LeadingGroups.scaled_eq {cell : Nat → Nat} {n offset : Nat} {kept : List Nat} {e : Int}
    (h : LeadingGroups cell n offset kept) (hbehind : ∀ i, n ≤ i → cell i = 0) (hn : n ≤ 9) :
    scaled base cell e 0 n = scaled base (digitAt kept) (e - offset) 0 kept.length := by
  have hoffset := h.offset_lt
  have hlead : scaled base cell e 0 (offset + (n - offset)) =
      scaled base cell (e - offset) (0 + offset) (n - offset) :=
    scaled_lead fun j hj => by
      rw [Nat.zero_add]
      exact h.zeros j hj
  have hextend : scaled base cell (e - offset) (0 + offset) (n - offset + (9 - (n - offset))) =
      scaled base cell (e - offset) (0 + offset) (n - offset) :=
    scaled_trim base_pos fun j _ => hbehind _ (by omega)
  have hkept : scaled base (digitAt kept) (e - offset) 0 (kept.length + (9 - kept.length)) =
      scaled base (digitAt kept) (e - offset) 0 kept.length :=
    scaled_trim base_pos fun j _ => digitAt_of_le (by omega)
  have hlen := h.length_le
  rw [Nat.add_sub_of_le (by omega)] at hlead hextend hkept
  have hwindow : window base cell (0 + offset) 9 = window base (digitAt kept) 0 9 :=
    window_congr fun j hj => by
      rw [Nat.zero_add, Nat.zero_add]
      exact (h.digit j hj).symm
  rw [hlead, ← hextend, ← hkept, scaled, scaled, hwindow]

theorem remDigits_spec (junk : Nat → Int) (ha : a.Stored) (hb : b.Stored)
    (hlt : b.magnitude < a.magnitude) (hroom : a.getDecodeExp - commonLow a b + 1 ≤ 30) :
    ∃ (q : Nat) (r : ℚ), a.magnitude = q * b.magnitude + r ∧ 0 ≤ r ∧ r < b.magnitude ∧
      (r = 0 → remDigits junk a b = some (.ok zero)) ∧
      (r ≠ 0 → ∃ e kept, Normal kept ∧ kept.length ≤ 9 ∧ e ≤ 14 ∧ -63 ≤ e ∧
        r = scaled base (digitAt kept) e 0 kept.length ∧
        remDigits junk a b = some (calcDescAndAssign a.sign e kept)) := by
  have hbuffer : remBufferSize = 32 := rfl
  obtain ⟨hsizes, hnine⟩ := movedSize_divisor ha hb hlt
  have hleft := movedSize_left a b
  have hright := movedSize_right a b
  have hbpos := hb.len_pos
  have hfitsa := len_le_movedSize a b.lowExp
  have hfitsb := len_le_movedSize b a.lowExp
  obtain ⟨x, hx, hxlen, hxholds, -⟩ := ha.fromDigits hfitsa (by omega) junk
  obtain ⟨y, hy, hylen, hyholds, hytop⟩ := hb.fromDigits hfitsb (by omega) junk
  obtain ⟨rem, hrem, hremlen, hremholds⟩ := rem_spec hxholds hyholds
    (by omega) hytop (by omega) (by omega) junk
  have hamag := magnitude_eq_extended hfitsa
  have hbmag := magnitude_eq_extended hfitsb
  rw [show a.getDecodeExp - (a.movedSize b.lowExp : Int) + 1 = commonLow a b by omega] at hamag
  rw [show b.getDecodeExp - (b.movedSize a.lowExp : Int) + 1 = commonLow a b by omega] at hbmag
  have hBpos := lt_of_lt_of_le (Nat.pow_pos base_pos) (hb.le_extended hfitsb)
  generalize extended a (a.movedSize b.lowExp) = A at *
  generalize extended b (b.movedSize a.lowExp) = B at *
  have hunit : (0 : ℚ) < (base : ℚ) ^ commonLow a b := zpow_pos (by exact_mod_cast base_pos) _
  refine ⟨A / B, (A % B : Nat) * (base : ℚ) ^ commonLow a b, ?_, ?_, ?_, ?_, ?_⟩
  · rw [hamag, hbmag, ← mul_assoc, ← add_mul]
    congr 1
    exact_mod_cast (Nat.div_add_mod' A B).symm
  · positivity
  · rw [hbmag]
    exact mul_lt_mul_of_pos_right (by exact_mod_cast Nat.mod_lt A hBpos) hunit
  · intro hzero
    have hmod : A % B = 0 := by
      have := (mul_eq_zero.mp hzero).resolve_right hunit.ne'
      exact_mod_cast this
    have hholds : rem.Holds 0 := by
      have hcast : (A : Int) % B = 0 := by exact_mod_cast hmod
      rwa [hcast] at hremholds
    simp only [remDigits, hx, hy, Option.bind_some, hrem, isZero_of_holds_zero hholds, if_true]
  · intro hne
    have hmod : ((A : Int) % B) ≠ 0 := by
      intro hmod
      apply hne
      have : A % B = 0 := by exact_mod_cast hmod
      rw [this, Nat.cast_zero, zero_mul]
    have hfit : rem.len ≤ remBufferSize := by omega
    obtain ⟨hdigit, hbehind, hwindow⟩ := uint32Digits_spec hremholds hfit
    obtain ⟨hnonzero, hexists⟩ := isZero_of_holds hremholds hfit hmod
    obtain ⟨offset, kept, hkept, hassign⟩ := assignLeading_spec a.sign b.getDecodeExp hdigit
      hbehind hfit hexists
    have hoffset := hkept.offset_lt
    have hblow := hb.exp_ge
    have hbhigh := hb.exp_le
    have hint : maxIntegerExp = 14 := rfl
    have hdec : maxDecimalExp = 15 := rfl
    refine ⟨b.getDecodeExp - offset, kept, hkept.normal, hkept.length_le, by omega, by omega,
      ?_, ?_⟩
    · have hvalue : ((A % B : Nat) : ℚ) * (base : ℚ) ^ commonLow a b =
          scaled base (rem.getUint32Digits remBufferSize).cell b.getDecodeExp 0
            rem.len := by
        rw [scaled, show b.getDecodeExp - (rem.len : Int) + 1 = commonLow a b by omega]
        congr 2
        have : ((A % B : Nat) : Int) = (A : Int) % B := Int.natCast_mod A B
        exact_mod_cast (this.trans hwindow.symm)
      rw [hvalue, hkept.scaled_eq hbehind (by omega)]
    · simp only [remDigits, hx, hy, Option.bind_some, hrem, hnonzero, Bool.false_eq_true,
        if_false, hassign]

/-! ### Dividends that do not fit -/

theorem size_of_set? {array out : CheckedArray Int} {i : Nat} {value : Int}
    (h : array.set? i value = some out) : i < array.size ∧ out.size = array.size := by
  unfold CheckedArray.set? at h
  split_ifs at h with hi
  cases h
  exact ⟨hi, rfl⟩

theorem size_of_carryLoop {term : CheckedArray Int → Nat → Int → Option Int}
    {carryOf : Int → Int} {count i : Nat} {dst : CheckedArray Int} {carry : Int}
    {out : CheckedArray Int × Int}
    (h : Limbs.carryLoop ObDivArray.base term carryOf count i dst carry = some out) :
    out.1.size = dst.size := by
  induction count generalizing i dst carry with
  | zero =>
    cases h
    rfl
  | succ count ih =>
    rw [Limbs.carryLoop] at h
    split at h
    · cases h
    split at h
    · cases h
    · rename_i hset
      exact (ih h).trans (size_of_set? hset).2

theorem len_of_pushCarry {fuel : Nat} {c out : ObDivArray} {carry : Int}
    (h : pushCarry fuel c carry = some out) (hlen : c.len ≤ c.digits.size) :
    out.len ≤ c.digits.size ∧ out.digits.size = c.digits.size := by
  induction fuel generalizing c carry with
  | zero => cases h
  | succ fuel ih =>
    rw [pushCarry] at h
    split_ifs at h with hzero
    · cases h
      exact ⟨hlen, rfl⟩
    split at h
    · cases h
    · rename_i digits hset
      obtain ⟨hinside, hsize⟩ := size_of_set? hset
      rw [← hsize]
      exact ih h (by simp only; omega)

/-- Step D1 clears the second place above the dividend, which is behind the array. -/
theorem normalise_overruns {x y : ObDivArray} (hsize : x.digits.size = remBufferSize)
    (hlen : x.len ≤ remBufferSize) (hlong : remBufferSize ≤ x.len + 1) : normalise x y = none := by
  refine Option.eq_none_iff_forall_not_mem.mpr fun out hout => ?_
  obtain ⟨d, -, hout⟩ := Option.bind_eq_some_iff.mp hout
  obtain ⟨scaled, hscaled, hout⟩ := Option.bind_eq_some_iff.mp hout
  obtain ⟨divisor, -, hout⟩ := Option.bind_eq_some_iff.mp hout
  obtain ⟨cleared, hcleared, -⟩ := Option.bind_eq_some_iff.mp hout
  unfold ObDivArray.mul at hscaled
  split at hscaled
  · cases hscaled
  rename_i digits carry hloop
  have hkept : digits.size = remBufferSize := (size_of_carryLoop hloop).trans hsize
  obtain ⟨hshort, hscaledSize⟩ := len_of_pushCarry hscaled (by simp only; omega)
  simp only at hshort hscaledSize
  rw [clearAbove, if_pos (by omega)] at hcleared
  obtain ⟨digits', hset, -⟩ := Option.map_eq_some_iff.mp hcleared
  have := (size_of_set? hset).1
  omega

theorem remDigits_overruns (junk : Nat → Int) (hlong : 30 < a.getDecodeExp - commonLow a b + 1) :
    remDigits junk a b = none := by
  have hbuffer : remBufferSize = 32 := rfl
  have hleft := movedSize_left a b
  have hfits : a.digits.length ≤ a.movedSize b.lowExp := len_le_movedSize a b.lowExp
  refine Option.eq_none_iff_forall_not_mem.mpr fun out hout => ?_
  obtain ⟨x, hx, hout⟩ := Option.bind_eq_some_iff.mp hout
  obtain ⟨y, -, hout⟩ := Option.bind_eq_some_iff.mp hout
  obtain ⟨rem, hrem, -⟩ := Option.bind_eq_some_iff.mp hout
  obtain ⟨s, hdiv, -⟩ := Option.bind_eq_some_iff.mp hrem
  unfold fromDigits at hx
  simp only at hx
  split_ifs at hx with hroom
  cases hx
  unfold knuthDiv at hdiv
  split_ifs at hdiv
  obtain ⟨operands, hnormalise, -⟩ := Option.bind_eq_some_iff.mp hdiv
  rw [normalise_overruns rfl hroom (by simp only; omega)] at hnormalise
  cases hnormalise

/-- There is one remainder at most. -/
theorem isRemainder_unique {v w r r' : ℚ} (hr : IsRemainder v w r) (hr' : IsRemainder v w r') :
    r = r' := by
  obtain ⟨⟨q, hq⟩, hlt, hsign⟩ := hr
  obtain ⟨⟨q', hq'⟩, hlt', hsign'⟩ := hr'
  have hclose : |r - r'| < |w| := by
    rw [abs_lt] at hlt hlt' ⊢
    rcases hsign with rfl | hsign
    · constructor <;> linarith [hlt'.1, hlt'.2]
    rcases hsign' with rfl | hsign'
    · constructor <;> linarith [hlt.1, hlt.2]
    rcases pos_and_pos_or_neg_and_neg_of_mul_pos hsign with ⟨h, hv⟩ | ⟨h, hv⟩
    · have h' := (pos_iff_pos_of_mul_pos hsign').mpr hv
      constructor <;> linarith [hlt.2, hlt'.2]
    · have h' := (neg_iff_neg_of_mul_pos hsign').mpr hv
      constructor <;> linarith [hlt.1, hlt'.1]
  have hdiff : r - r' = ((q' - q : ℤ) : ℚ) * w := by
    push_cast
    linarith
  have hsame : q' - q = 0 := by
    by_contra hne
    have hone : (1 : ℚ) ≤ |((q' - q : ℤ) : ℚ)| := by exact_mod_cast Int.one_le_abs hne
    rw [hdiff, abs_mul] at hclose
    nlinarith [abs_nonneg w]
  rw [hsame, Int.cast_zero, zero_mul] at hdiff
  linarith

theorem isRemainder_of_magnitude {q : Nat} {r : ℚ} (hdiv : a.magnitude = q * b.magnitude + r)
    (hr : 0 ≤ r) (hlt : r < b.magnitude) (hpos : 0 < a.magnitude) :
    IsRemainder a.value b.value (signFactor a.sign * r) := by
  refine ⟨?_, ?_, ?_⟩
  · have hfactor : ∀ sign, signFactor sign * signFactor sign = 1 := by
      intro sign
      cases sign <;> norm_num [signFactor]
    obtain ⟨q', hq'⟩ : ∃ q' : ℤ, (q' : ℚ) = signFactor a.sign * signFactor b.sign * q := by
      rcases a.sign with _ | _ <;> rcases b.sign with _ | _
      · exact ⟨q, by norm_num [signFactor]⟩
      · exact ⟨-q, by norm_num [signFactor]⟩
      · exact ⟨-q, by norm_num [signFactor]⟩
      · exact ⟨q, by norm_num [signFactor]⟩
    refine ⟨q', ?_⟩
    rw [hq', value, value, hdiv]
    linear_combination (-(signFactor a.sign * q * b.magnitude)) * hfactor b.sign
  · rw [abs_mul, abs_signFactor, one_mul, abs_of_nonneg hr, abs_value]
    exact hlt
  · rcases hr.eq_or_lt with hzero | hpos'
    · left
      rw [← hzero, mul_zero]
    · right
      rw [value]
      rcases a.sign with _ | _ <;> simp only [signFactor] <;> nlinarith [mul_pos hpos' hpos]

end

/-- A canonical number that is the remainder is not below the smallest exponent. -/
theorem IsRemainder.le_abs {a b r : ObNumber} (hr : r.Canonical)
    (hrem : IsRemainder a.value b.value r.value) {v : ℚ} (hv : IsRemainder a.value b.value v)
    (hne : v ≠ 0) : (base : ℚ) ^ (-15 : ℤ) ≤ |v| := by
  obtain rfl := isRemainder_unique hv hrem
  rcases hr with rfl | hstored
  · exact absurd value_zero hne
  · have hone : (1 : ℚ) ≤ base := by exact_mod_cast base_pos
    exact (zpow_le_zpow_right₀ hone hstored.exp_ge).trans hstored.leads.lower

/-- When the dividend takes at most thirty places in the common unit and the remainder
itself is not too small for the format, it is exact and canonical. -/
theorem remV3_exact (junk : Nat → Int) {a b : ObNumber} (ha : a.Canonical) (hb : b.Canonical)
    (hne : b ≠ zero) (hroom : |b.value| < |a.value| → a.getDecodeExp - commonLow a b + 1 ≤ 30)
    (hsmall : ∀ v, IsRemainder a.value b.value v → v ≠ 0 → (base : ℚ) ^ (-15 : ℤ) ≤ |v|) :
    ∃ r, remV3 junk a b = some (.ok r) ∧ r.Canonical ∧ IsRemainder a.value b.value r.value := by
  have hbs : b.Stored := hb.resolve_left hne
  have hbpos : 0 < b.magnitude := by
    rw [← abs_value]
    exact abs_pos.mpr (hbs.leads.ne_zero base_pos)
  rcases ha with rfl | has
  · refine ⟨zero, ?_, Or.inl rfl, ⟨0, by simp⟩, ?_, Or.inl value_zero⟩
    · simp only [remV3, hbs.isZero, Bool.false_eq_true, if_false]
      rfl
    · rw [value_zero, abs_zero, abs_value]
      exact hbpos
  have hapos : 0 < a.magnitude := by
    rw [← abs_value]
    exact abs_pos.mpr (has.leads.ne_zero base_pos)
  simp only [remV3, hbs.isZero, has.isZero, Bool.false_eq_true, if_false, absCompare_eq has hbs]
  rcases lt_trichotomy a.magnitude b.magnitude with hlt | heq | hgt
  · refine ⟨a, ?_, Or.inr has, ?_⟩
    · rw [compare_lt_iff_lt.mpr hlt, has.deepCopyV3_eq]
      rfl
    · have := isRemainder_of_magnitude (q := 0) (by simp) hapos.le hlt hapos
      rwa [← value] at this
  · refine ⟨zero, ?_, Or.inl rfl, ?_⟩
    · rw [compare_eq_iff_eq.mpr heq]
    · have := isRemainder_of_magnitude (q := 1) (r := 0) (by simpa using heq) le_rfl hbpos hapos
      rwa [mul_zero, ← value_zero] at this
  rw [compare_gt_iff_gt.mpr hgt]
  obtain ⟨q, r, hdiv, hr0, hrlt, hzero, hnonzero⟩ := remDigits_spec junk has hbs hgt
    (hroom (by rwa [abs_value, abs_value]))
  have hrem := isRemainder_of_magnitude hdiv hr0 hrlt hapos
  rcases eq_or_ne r 0 with rfl | hrne
  · refine ⟨zero, hzero rfl, Or.inl rfl, ?_⟩
    rwa [mul_zero, ← value_zero] at hrem
  obtain ⟨e, kept, hnormal, hlen, hhigh, hlow, hvalue, hresult⟩ := hnonzero hrne
  have hleads : Leads base e (signFactor a.sign * r) := by
    apply leads_of_normal hnormal
    rw [abs_mul, abs_signFactor, one_mul, abs_of_nonneg hr0, hvalue]
  have hbig := hsmall _ hrem (hleads.ne_zero base_pos)
  have hge : -15 ≤ e := by
    have hone : (1 : ℚ) < base := by exact_mod_cast one_lt_base
    have := (zpow_lt_zpow_iff_right₀ hone).mp (hbig.trans_lt hleads.upper)
    omega
  have hdecode : getDecodeExp { sign := a.sign, exp := encodeExp a.sign e, digits := kept } =
      e := getDecodeExp_encodeExp hlow (by omega)
  refine ⟨{ sign := a.sign, exp := encodeExp a.sign e, digits := kept }, ?_, ?_, ?_⟩
  · rw [hresult, calcDescAndAssign_ok hge hhigh]
  · refine Or.inr ⟨hnormal, hlen, ?_, ?_⟩
    · rw [hdecode]
      exact hge
    · rw [hdecode]
      exact hhigh
  have hsame : ({ sign := a.sign, exp := encodeExp a.sign e, digits := kept } :
      ObNumber).value = signFactor a.sign * r := by
    rw [value, magnitude, hdecode, hvalue]
    rfl
  rwa [hsame]

theorem remV3_overruns_of_long (junk : Nat → Int) {a b : ObNumber} (ha : a.Canonical)
    (hb : b.Canonical) (hlt : |b.value| < |a.value|)
    (hlong : 30 < a.getDecodeExp - commonLow a b + 1) (hne : b ≠ zero) :
    remV3 junk a b = none := by
  have hbs : b.Stored := hb.resolve_left hne
  rcases ha with rfl | has
  · rw [value_zero, abs_zero] at hlt
    exact absurd hlt (not_lt.mpr (abs_nonneg _))
  rw [abs_value, abs_value] at hlt
  simp only [remV3, hbs.isZero, has.isZero, Bool.false_eq_true, if_false, absCompare_eq has hbs,
    compare_gt_iff_gt.mpr hlt]
  exact remDigits_overruns junk hlong

/-- The canonical remainder is returned exactly when the dividend takes at most thirty
places in the common unit, unless it is the smaller one, and the remainder is not too small
for the format. -/
theorem remV3_remainder (junk : Nat → Int) {a b : ObNumber} (ha : a.Canonical) (hb : b.Canonical)
    (hne : b ≠ zero) :
    (∃ r, remV3 junk a b = some (.ok r) ∧ r.Canonical ∧ IsRemainder a.value b.value r.value) ↔
      (|b.value| < |a.value| → a.getDecodeExp - commonLow a b + 1 ≤ 30) ∧
      ∀ v, IsRemainder a.value b.value v → v ≠ 0 → (base : ℚ) ^ (-15 : ℤ) ≤ |v| := by
  constructor
  · rintro ⟨r, hcall, hcanonical, hrem⟩
    refine ⟨fun hlt => ?_, fun v hv hv0 => hrem.le_abs hcanonical hv hv0⟩
    by_contra hlong
    rw [remV3_overruns_of_long junk ha hb hlt (not_le.mp hlong) hne] at hcall
    cases hcall
  · rintro ⟨hroom, hsmall⟩
    exact remV3_exact junk ha hb hne hroom hsmall

theorem remV3_remainder_negative :
    let a : ObNumber := { sign := .negative, exp := 64, digits := [7] }
    let b : ObNumber := { sign := .positive, exp := 64, digits := [2] }
    a.Canonical ∧ b.Canonical ∧ ∃ r, remV3 (fun _ => 0) a b = some (.ok r) ∧ r.Canonical ∧
      IsRemainder a.value b.value r.value := by
  intro a b
  have ha : a.Canonical :=
    Or.inr ⟨⟨by decide, by decide, by decide⟩, by decide, by decide, by decide⟩
  have hb : b.Canonical :=
    Or.inr ⟨⟨by decide, by decide, by decide⟩, by decide, by decide, by decide⟩
  have hav : a.value = -7 := by
    norm_num [a, value, signFactor, magnitude, scaled, getDecodeExp, expZero, len]
  have hbv : b.value = 2 := by
    norm_num [b, value, signFactor, magnitude, scaled, getDecodeExp, expZero, len]
  refine ⟨ha, hb, (remV3_remainder (fun _ => 0) ha hb (by decide)).mpr ⟨fun _ => by decide, ?_⟩⟩
  -- The remainder of integers is an integer.
  rintro v ⟨⟨q, hq⟩, -⟩ hne
  rw [hav, hbv] at hq
  have hint : v = ((-7 - q * 2 : ℤ) : ℚ) := by
    push_cast
    linarith
  have hone : (1 : ℚ) ≤ |v| := by
    rw [hint] at hne ⊢
    exact_mod_cast Int.one_le_abs (by exact_mod_cast hne)
  refine le_trans ?_ hone
  norm_num [base]

/-- `10^126` needs 38 places in the unit of a divisor of nine groups that starts at
`10^-135`: the array of the dividend is overrun.  A remainder below `10^-135` becomes zero. -/
theorem remV3_overruns :
    let a : ObNumber := { sign := .positive, exp := 78, digits := [1] }
    let b : ObNumber := { sign := .positive, exp := 49, digits := [1, 0, 0, 0, 0, 0, 0, 0, 1] }
    let c : ObNumber := { sign := .positive, exp := 49, digits := [1, 0, 0, 0, 0, 0, 0, 0, 2] }
    (a.Stored ∧ b.Stored ∧ remV3 (fun _ => 0) a b = none) ∧
      (c.Stored ∧ remV3 (fun _ => 0) c b = some (.ok zero) ∧
        ¬ IsRemainder c.value b.value zero.value) := by
  intro a b c
  refine ⟨⟨⟨⟨by decide, by decide, by decide⟩, by decide, by decide, by decide⟩,
    ⟨⟨by decide, by decide, by decide⟩, by decide, by decide, by decide⟩, by decide +kernel⟩,
    ⟨⟨by decide, by decide, by decide⟩, by decide, by decide, by decide⟩,
    by decide +kernel, ?_⟩
  rintro ⟨⟨q, hq⟩, -⟩
  have hcv : c.value = (10 ^ 72 + 2) * (base : ℚ) ^ (-23 : ℤ) := by
    norm_num [c, value, signFactor, magnitude, scaled, getDecodeExp, expZero, len, window, base]
  have hbv : b.value = (10 ^ 72 + 1) * (base : ℚ) ^ (-23 : ℤ) := by
    norm_num [b, value, signFactor, magnitude, scaled, getDecodeExp, expZero, len, window, base]
  rw [hcv, hbv, value_zero, add_zero, ← mul_assoc] at hq
  have hunit : (base : ℚ) ^ (-23 : ℤ) ≠ 0 := by norm_num [base]
  have hint : (10 ^ 72 + 2 : ℤ) = q * (10 ^ 72 + 1) := by
    exact_mod_cast mul_right_cancel₀ hunit hq
  omega

end SeekDB.ObNumber
