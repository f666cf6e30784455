/-
Decimal integers of 64 bits cast to numbers: the batch cast with its three
digits, and the general `to_number` with `normalize_`.
-/
import SeekDB.ObNumberResult

namespace SeekDB.ObNumber

open List Nat Positional

def signOf (v : Int) : NumberSign := if v < 0 then .negative else .positive

/-- A digit is stored as `uint32_t`. -/
def digit (d : Nat) : Nat := d % 2 ^ 32

/-- `to_number` into the digits of the caller.  A zero group of the integer part is not
stored, whatever has been stored behind it. -/
def toNumberDigits (v : Int) (scale : Nat) : ObNumber :=
  let numerator := v.natAbs
  let integer := numerator / 10 ^ scale
  let decimal := numerator % 10 ^ scale
  let (digits, exp) : List Nat × Int :=
    if decimal > 0 then ([digit (decimal * 10 ^ (digitWidth - scale))], -1) else ([], 0)
  let (digits, exp) :=
    if integer > 0 then
      let digits := if integer % base > 0 then integer % base :: digits else digits
      if integer / base > 0 then (digit (integer / base) :: digits, 1) else (digits, 0)
    else (digits, exp)
  if digits.length = 0 then zero
  else { sign := signOf v, exp := encodeExp (signOf v) exp, digits := digits }

/-- `normalize_` of the digits of a number, with its carry from right to left. -/
def normalize (sign : NumberSign) (exp : Nat) (digits : List Nat) : Option ObNumber :=
  let body := digits.dropWhile (· = 0)
  let (body, carry) := body.foldr (fun d (out : List Nat × Nat) =>
    if base ≤ d + out.2 then ((d + out.2 - base) :: out.1, 1) else ((d + out.2) :: out.1, 0))
    ([], 0)
  let kept := body.rdropWhile fun d => d = 0 || d = base
  if 0 < carry then
    if kept.length ≠ 0 then none
    else some ⟨sign, (if sign = .negative then exp + 127 else exp + 1) % 128, [carry]⟩
  else if kept.length = 0 then some zero
  else some ⟨sign, exp, kept⟩

/-- The groups of the fraction that are left to store, while there is something to store. -/
def pushFraction : Nat → Nat → List Nat → Nat × List Nat × Nat
  | 0, numerator, digits => (numerator, digits, 0)
  | rounds + 1, numerator, digits =>
    if numerator > 0 then pushFraction rounds (numerator / base) (numerator % base :: digits)
    else (numerator, digits, rounds + 1)

/-- The groups of an integer of at most 64 bits, which has at most three. -/
def pushInteger : Nat → Nat → List Nat → Int → List Nat × Int
  | 0, _, digits, exp => (digits, exp)
  | rounds + 1, numerator, digits, exp =>
    if numerator ≠ 0 then
      pushInteger rounds (numerator / base) (numerator % base :: digits) (exp + 1)
    else (digits, exp)

/-- The general `to_number` of a 64-bit integer. -/
def toNumber (v scale : Int) : Option ObNumber :=
  let numerator := v.natAbs
  let (digits, exp) :=
    if 0 ≤ scale then
      let rem := scale.toNat % digitWidth
      let (numerator, digits) :=
        if rem ≠ 0 then
          (numerator / 10 ^ rem, [digit (numerator % 10 ^ rem * 10 ^ (digitWidth - rem))])
        else (numerator, [])
      let (numerator, digits, unused) := pushFraction (scale.toNat / digitWidth) numerator digits
      if numerator = 0 then (digits, -1 - (unused : Int)) else pushInteger 3 numerator digits (-1)
    else
      let scale := (-scale).toNat
      let exp : Int := (scale / digitWidth : Nat)
      let rem := scale % digitWidth
      if rem > 0 then
        pushInteger 3 (numerator / 10 ^ (digitWidth - rem))
          [digit (numerator % 10 ^ (digitWidth - rem))] (exp + 1)
      else pushInteger 3 numerator [] exp
  if digits.length = 0 then some zero
  else normalize (signOf v) (encodeExp (signOf v) exp) digits

section

variable {e : Int} {digits : List Nat}

/-- What the digits denote when the first one stands at `e`. -/
def denoted (e : Int) (digits : List Nat) : ℚ := scaled base (digitAt digits) e 0 digits.length

theorem denoted_nil : denoted e [] = 0 := by
  simp [denoted, scaled]

theorem denoted_cons (d : Nat) :
    denoted e (d :: digits) = d * (base : ℚ) ^ e + denoted (e - 1) digits := by
  have hne : (base : ℚ) ≠ 0 := by exact_mod_cast base_pos.ne'
  have hshift : window base (digitAt (d :: digits)) (0 + 1) digits.length =
      window base (digitAt digits) 0 digits.length := by
    apply window_congr
    intro j _
    rw [Nat.zero_add, Nat.zero_add, Nat.add_comm, digitAt_cons_succ]
  rw [denoted, denoted, scaled, scaled, length_cons, window_succ, hshift, digitAt_cons_zero]
  push_cast
  rw [add_mul, mul_assoc, ← zpow_natCast, ← zpow_add₀ hne]
  congr 3 <;> ring

theorem value_packed (sign : NumberSign) (hlow : -63 ≤ e) (hhigh : e ≤ 63) :
    value { sign := sign, exp := encodeExp sign e, digits := digits } =
      signFactor sign * denoted e digits := by
  rw [value, magnitude, getDecodeExp_encodeExp hlow hhigh]
  rfl

theorem signFactor_signOf_mul (v : Int) : signFactor (signOf v) * (v.natAbs : ℚ) = v := by
  rw [signOf, ← Int.cast_natCast (R := ℚ), Int.natCast_natAbs]
  split_ifs with h
  · rw [abs_of_neg h, signFactor]
    push_cast
    ring
  · rw [abs_of_nonneg (by omega), signFactor, one_mul]

/-- A numerator cut into the two groups of its integer part and the group of its fraction. -/
structure Cut (n scale hi lo frac : Nat) : Prop where
  scale_le : scale ≤ 9
  integer : n / 10 ^ scale = hi * base + lo
  decimal : n % 10 ^ scale * 10 ^ (9 - scale) = frac
  hi_lt : hi < base
  lo_lt : lo < base
  frac_lt : frac < base

theorem exists_cut {n scale : Nat} (hn : n < 10 ^ 18) (hscale : scale ≤ 9) :
    Cut n scale (n / 10 ^ scale / base) (n / 10 ^ scale % base)
      (n % 10 ^ scale * 10 ^ (9 - scale)) where
  scale_le := hscale
  integer := (div_add_mod' _ _).symm
  decimal := rfl
  hi_lt := Nat.div_lt_of_lt_mul ((Nat.div_le_self _ _).trans_lt hn)
  lo_lt := mod_lt _ base_pos
  frac_lt := by
    calc n % 10 ^ scale * 10 ^ (9 - scale)
        < 10 ^ scale * 10 ^ (9 - scale) :=
          Nat.mul_lt_mul_of_pos_right (mod_lt _ (by positivity)) (by positivity)
      _ = base := by rw [← pow_add, Nat.add_sub_cancel' hscale]; rfl

variable {n scale hi lo frac : Nat}

section

variable (h : Cut n scale hi lo frac)

include h

theorem Cut.value_eq :
    (n : ℚ) / 10 ^ scale = hi * (base : ℚ) + lo + frac * (base : ℚ) ^ (-1 : Int) := by
  have hbase : (base : ℚ) = 10 ^ scale * 10 ^ (9 - scale) := by
    rw [← pow_add, Nat.add_sub_cancel' h.scale_le, base]
    norm_num
  have hsplit : (n : ℚ) = (hi * base + lo) * 10 ^ scale + (n % 10 ^ scale : Nat) := by
    rw [← cast_mul, ← cast_add, ← h.integer]
    exact_mod_cast (div_add_mod' n (10 ^ scale)).symm
  rw [← h.decimal, hsplit, zpow_neg_one]
  push_cast
  rw [hbase]
  field_simp

theorem Cut.decimal_pos : 0 < n % 10 ^ scale ↔ 0 < frac := by
  rw [← h.decimal]
  exact (Nat.mul_pos_iff_of_pos_right (by positivity)).symm

theorem Cut.groups : n / 10 ^ scale / base = hi ∧
    n / 10 ^ scale % base = lo ∧ digit hi = hi ∧ digit frac = frac := by
  have hbase : base < 2 ^ 32 := by decide
  rw [h.integer, digit, digit, mod_eq_of_lt (h.hi_lt.trans hbase),
    mod_eq_of_lt (h.frac_lt.trans hbase), Nat.add_comm, add_mul_div_right _ _ base_pos,
    add_mul_mod_self_right, div_eq_of_lt h.lo_lt, mod_eq_of_lt h.lo_lt]
  simp

end

/-- The groups that the batch cast stores. -/
theorem toNumberDigits_groups {v : Int} (h : Cut v.natAbs scale hi lo frac) :
    toNumberDigits v scale =
      let (digits, exp) : List Nat × Int := if 0 < frac then ([frac], -1) else ([], 0)
      let (digits, exp) :=
        if 0 < hi ∨ 0 < lo then
          let digits := if 0 < lo then lo :: digits else digits
          if 0 < hi then (hi :: digits, 1) else (digits, 0)
        else (digits, exp)
      if digits.length = 0 then zero
      else { sign := signOf v, exp := encodeExp (signOf v) exp, digits := digits } := by
  obtain ⟨hhi, hlo, hdigit, hfrac⟩ := h.groups
  have hdecimal := h.decimal_pos
  have hinteger : 0 < v.natAbs / 10 ^ scale ↔ 0 < hi ∨ 0 < lo := by
    rw [h.integer, add_pos_iff_pos_or_pos, Nat.mul_pos_iff_of_pos_right base_pos]
  simp only [toNumberDigits, digitWidth, h.decimal, hhi, hlo, hdigit, hfrac, gt_iff_lt, hdecimal,
    hinteger]

/-- The three digits of the batch cast denote the number unless the lower group of the
integer part is zero between two others. -/
theorem value_toNumberDigits {v : Int} (h : Cut v.natAbs scale hi lo frac)
    (hgroups : hi = 0 ∨ lo ≠ 0 ∨ frac = 0) :
    (toNumberDigits v scale).value = v / 10 ^ scale := by
  rw [← signFactor_signOf_mul v, mul_div_assoc, h.value_eq, toNumberDigits_groups h]
  rcases Nat.eq_zero_or_pos frac with rfl | hfrac
  · rcases Nat.eq_zero_or_pos hi with rfl | hhi <;>
      rcases Nat.eq_zero_or_pos lo with rfl | hlo <;>
      simp [*, value_packed, denoted_cons, denoted_nil]
  rcases Nat.eq_zero_or_pos hi with rfl | hhi
  · rcases Nat.eq_zero_or_pos lo with rfl | hlo <;>
      simp [*, value_packed, denoted_cons, denoted_nil]
  have hlo : 0 < lo := by omega
  simp only [hfrac, hhi, hlo, true_or, if_true, length_cons, succ_ne_zero, if_false,
    value_packed (signOf v) (by decide : (-63 : Int) ≤ 1) (by decide : (1 : Int) ≤ 63),
    denoted_cons, denoted_nil, zpow_one]
  norm_num
  ring_nf
  simp

/-- Without the zero group the fraction stands at the place of the units. -/
theorem value_toNumberDigits_ne {v : Int} (h : Cut v.natAbs scale hi 0 frac)
    (hhi : 0 < hi) (hfrac : 0 < frac) : (toNumberDigits v scale).value ≠ v / 10 ^ scale := by
  have hvalue : (toNumberDigits v scale).value =
      signFactor (signOf v) * (hi * (base : ℚ) + frac) := by
    rw [toNumberDigits_groups h]
    simp [hfrac, hhi, value_packed (signOf v) (by decide : (-63 : Int) ≤ 1) (by decide),
      denoted_cons, denoted_nil]
  have hsign : signFactor (signOf v) ≠ 0 := by
    rw [signOf]
    split_ifs <;> simp [signFactor]
  rw [hvalue, ← signFactor_signOf_mul v, mul_div_assoc, h.value_eq]
  intro heq
  have hsum := mul_left_cancel₀ hsign heq
  have hpos : (0 : ℚ) < frac := by exact_mod_cast hfrac
  norm_num [base] at hsum
  linarith

theorem foldr_carry (h : ∀ d ∈ digits, d < base) :
    digits.foldr (fun d (out : List Nat × Nat) =>
      if base ≤ d + out.2 then ((d + out.2 - base) :: out.1, 1) else ((d + out.2) :: out.1, 0))
      ([], 0) = (digits, 0) := by
  induction digits with
  | nil => rfl
  | cons d ds ih =>
    have hd := h d mem_cons_self
    rw [foldr_cons, ih fun x hx => h x (mem_cons_of_mem d hx)]
    simp only [Nat.add_zero]
    rw [if_neg (Nat.not_le_of_lt hd)]

theorem denoted_rdropWhile (h : ∀ d ∈ digits, d < base) :
    denoted e (digits.rdropWhile fun d => d = 0 || d = base) = denoted e digits := by
  induction digits using List.reverseRecOn with
  | nil => rfl
  | append_singleton ds d ih =>
    have hd := h d (by simp)
    rw [rdropWhile_concat]
    by_cases hzero : d = 0
    · subst hzero
      simp only [decide_true, Bool.true_or, if_true]
      rw [ih fun x hx => h x (mem_append_left _ hx), denoted, denoted, length_append]
      have htrim : scaled base (digitAt (ds ++ [0])) e 0 (ds.length + 1) =
          scaled base (digitAt (ds ++ [0])) e 0 ds.length :=
        scaled_trim base_pos (by intro j hj; simp [digitAt, lt_one_iff.mp hj])
      rw [length_singleton, htrim, scaled, scaled]
      congr 2
      apply window_congr
      intro j hj
      simp [digitAt, hj, List.getElem?_append_left]
    · rw [if_neg (by simp [hzero, hd.ne])]

/-- Groups below the base, the first one not zero, only lose zeros at the end. -/
theorem value_normalize (sign : NumberSign) (hlow : -63 ≤ e) (hhigh : e ≤ 63) {d : Nat}
    {ds : List Nat} (hd : d ≠ 0) (hlt : ∀ x ∈ d :: ds, x < base) :
    ∃ r, normalize sign (encodeExp sign e) (d :: ds) = some r ∧
      r.value = signFactor sign * denoted e (d :: ds) := by
  have hdrop := denoted_rdropWhile (e := e) hlt
  rw [normalize, dropWhile_cons_of_neg (by simpa using hd)]
  simp only [foldr_carry hlt, Nat.lt_irrefl, if_false]
  split_ifs with hkept
  · refine ⟨zero, rfl, ?_⟩
    rw [eq_nil_of_length_eq_zero hkept, denoted_nil] at hdrop
    rw [value_zero, ← hdrop, mul_zero]
  · exact ⟨_, rfl, by rw [value_packed sign hlow hhigh, hdrop]⟩

theorem pushInteger_eq (hhi : hi < base) (hlo : lo < base) (hne : hi * base + lo ≠ 0) :
    pushInteger 3 (hi * base + lo) digits (-1) =
      if hi = 0 then (lo :: digits, 0) else (hi :: lo :: digits, 1) := by
  have hdiv : (hi * base + lo) / base = hi := by
    rw [Nat.add_comm, add_mul_div_right _ _ base_pos, div_eq_of_lt hlo, Nat.zero_add]
  have hmod : (hi * base + lo) % base = lo := by
    rw [Nat.add_comm, add_mul_mod_self_right, mod_eq_of_lt hlo]
  rw [pushInteger, if_pos hne, hdiv, hmod, pushInteger]
  by_cases hzero : hi = 0
  · rw [if_neg (not_not.mpr hzero), if_pos hzero]
    rfl
  · rw [if_pos hzero, if_neg hzero, div_eq_of_lt hhi, mod_eq_of_lt hhi]
    rfl

/-- The stored groups of the fraction, for a numerator that is not zero. -/
theorem toNumber_groups {v : Int} (h : Cut v.natAbs scale hi lo frac) (hv : v ≠ 0) :
    toNumber v scale =
      let tail := if scale = 0 then [] else [frac]
      let out := if hi * base + lo = 0 then (tail, -1) else
        pushInteger 3 (hi * base + lo) tail (-1)
      if out.1.length = 0 then some zero
      else normalize (signOf v) (encodeExp (signOf v) out.2) out.1 := by
  have hscale := h.scale_le
  have hpos : 0 < v.natAbs := Int.natAbs_pos.mpr hv
  have hinteger := h.integer
  have hdecimal := h.decimal
  have hdigit := h.groups.2.2.2
  simp only [toNumber, Int.natCast_nonneg, if_true, Int.toNat_natCast]
  rcases Nat.lt_or_ge scale 9 with hlt | hge
  · have hmod : scale % digitWidth = scale := mod_eq_of_lt hlt
    have hdiv : scale / digitWidth = 0 := div_eq_of_lt hlt
    rw [hmod, hdiv]
    by_cases hzero : scale = 0
    · subst hzero
      simp only [pow_zero, Nat.div_one] at hinteger
      simp [pushFraction, hinteger]
    · simp [pushFraction, hzero, hinteger, digitWidth, hdecimal, hdigit]
  · obtain rfl : scale = 9 := by omega
    have hpow : (10 : Nat) ^ 9 = base := by decide
    simp only [hpow, Nat.sub_self, pow_zero, Nat.mul_one] at hinteger hdecimal
    simp [pushFraction, digitWidth, hpos, hinteger, hdecimal]

theorem value_toNumber {v : Int} (h : Cut v.natAbs scale hi lo frac) :
    ∃ r, toNumber v scale = some r ∧ r.value = v / 10 ^ scale := by
  rcases eq_or_ne v 0 with rfl | hv
  · have hscale := h.scale_le
    refine ⟨zero, ?_, by simp [value_zero]⟩
    interval_cases scale <;> rfl
  have htail : ∀ x ∈ (if scale = 0 then [] else [frac] : List Nat), x < base := by
    have := h.frac_lt
    split_ifs <;> simp [this]
  have hdenoted : denoted (-1) (if scale = 0 then [] else [frac]) =
      frac * (base : ℚ) ^ (-1 : Int) := by
    split_ifs with hzero
    · have : frac = 0 := by rw [← h.decimal, hzero, pow_zero, mod_one, Nat.zero_mul]
      rw [this, denoted_nil, cast_zero, zero_mul]
    · rw [denoted_cons, denoted_nil, add_zero]
  rw [toNumber_groups h hv, ← signFactor_signOf_mul v, mul_div_assoc, h.value_eq, ← hdenoted]
  dsimp only
  by_cases hinteger : hi * base + lo = 0
  · -- a numerator below one has a scale and a fraction
    have hmod := div_add_mod v.natAbs (10 ^ scale)
    have hfrac : 0 < frac := by
      rw [← h.decimal_pos]
      rw [h.integer, hinteger, Nat.mul_zero, Nat.zero_add] at hmod
      rw [hmod]
      exact Int.natAbs_pos.mpr hv
    have hscale : scale ≠ 0 := by
      intro hzero
      rw [← h.decimal, hzero, pow_zero, mod_one, Nat.zero_mul] at hfrac
      exact hfrac.false
    have hgroups : hi = 0 ∧ lo = 0 := by simpa [base_pos.ne'] using hinteger
    rw [if_neg hscale] at htail ⊢
    simpa [hinteger, hgroups] using
      value_normalize (signOf v) (by decide) (by decide) hfrac.ne' htail
  · rw [if_neg hinteger, pushInteger_eq h.hi_lt h.lo_lt hinteger]
    generalize (if scale = 0 then [] else [frac] : List Nat) = tail at htail ⊢
    by_cases hzero : hi = 0
    · subst hzero
      have hlo : lo ≠ 0 := by simpa using hinteger
      simpa [denoted_cons] using value_normalize (e := 0) (signOf v) (by decide) (by decide) hlo
        (forall_mem_cons.mpr ⟨h.lo_lt, htail⟩)
    · simpa [hzero, denoted_cons, add_assoc] using
        value_normalize (e := 1) (signOf v) (by decide) (by decide) hzero
        (forall_mem_cons.mpr ⟨h.hi_lt, forall_mem_cons.mpr ⟨h.lo_lt, htail⟩⟩)

end

/-- The batch cast and the general one denote the decimal exactly when the lower of two
groups of the integer part is not zero in front of a fraction. -/
theorem toNumberDigits_exact (v : Int) (scale : Nat) (hv : v.natAbs < 10 ^ 18)
    (hscale : scale ≤ 9) :
    ((toNumberDigits v scale).value = v / 10 ^ scale ∧
      ∃ r, toNumber v scale = some r ∧ r.value = (toNumberDigits v scale).value) ↔
    v.natAbs / 10 ^ scale < base ∨ v.natAbs / 10 ^ scale % base ≠ 0 ∨
      v.natAbs % 10 ^ scale = 0 := by
  have hcut := exists_cut hv hscale
  refine ⟨fun hexact => ?_, fun hgroups => ?_⟩
  · by_contra hgroups
    push Not at hgroups
    obtain ⟨hge, hlo, hdecimal⟩ := hgroups
    rw [hlo] at hcut
    refine value_toNumberDigits_ne hcut (Nat.div_pos hge base_pos) ?_ hexact.1
    exact hcut.decimal_pos.mp (Nat.pos_of_ne_zero hdecimal)
  · have hvalue : (toNumberDigits v scale).value = v / 10 ^ scale := by
      apply value_toNumberDigits hcut
      rcases hgroups with hlt | hne | hzero
      · exact .inl (div_eq_of_lt hlt)
      · exact .inr (.inl hne)
      · exact .inr (.inr (by rw [hzero, Nat.zero_mul]))
    exact ⟨hvalue, by rw [hvalue]; exact value_toNumber hcut⟩

theorem toNumberDigits_exact_fraction :
    (toNumberDigits (-12345) 2).value = (-12345 : Int) / 10 ^ 2 ∧
      ∃ r, toNumber (-12345) (2 : Nat) = some r ∧ r.value = (toNumberDigits (-12345) 2).value :=
  (toNumberDigits_exact (-12345) 2 (by decide) (by decide)).mpr (by decide)

/-- The decimal 1000000000.5 becomes the number 1500000000: its two digits are those of the
upper group and of the fraction. -/
theorem toNumberDigits_drops_group :
    toNumberDigits 10000000005 1 = ⟨.positive, 65, [1, 500000000]⟩ ∧
      (toNumberDigits 10000000005 1).value = 1500000000 ∧
      toNumber 10000000005 1 = some ⟨.positive, 65, [1, 0, 500000000]⟩ := by
  have hdigits : toNumberDigits 10000000005 1 = ⟨.positive, encodeExp .positive 1,
      [1, 500000000]⟩ := by decide
  refine ⟨by decide, ?_, by decide⟩
  rw [hdigits, value_packed .positive (by decide) (by decide), denoted_cons, denoted_cons,
    denoted_nil]
  norm_num [base, signFactor]

end SeekDB.ObNumber
