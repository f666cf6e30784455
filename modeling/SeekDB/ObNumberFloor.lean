/-
Rounding numbers down and up to integers in place, and the comparison of the
result with numbers of the same value.
-/
import SeekDB.ObNumberResult

namespace SeekDB.ObNumber

open List Positional

variable {r : ObNumber} {v : ℤ}

/-- The number of integer groups, or `-1` for a number below one. -/
def intLen (x : ObNumber) : Int :=
  let exp := match x.sign with
    | .positive => (x.signExp : Int) - 192
    | .negative => 64 - (x.signExp : Int)
  if 0 ≤ exp then exp + 1 else -1

/-- Add one to the group before index `n`; groups that overflow become zero. -/
def addOne (digits : List Nat) : Nat → Option (List Nat)
  | 0 => some digits
  | i + 1 =>
    match digits[i]? with
    | none => none
    | some digit =>
      if digit ≠ base - 1 then some (digits.set i (digit + 1))
      else addOne (digits.set i 0) i

/-- Move the first `n` groups one place back. -/
def shiftBack (digits : List Nat) : Nat → Option (List Nat)
  | 0 => some digits
  | i + 1 =>
    match digits[i]? with
    | none => none
    | some digit =>
      if i + 1 < digits.length then shiftBack (digits.set (i + 1) digit) i else none

/-- The groups before `n` increased by one, with a new leading group after a
carry out of the first. -/
def increment (digits : List Nat) (n : Nat) : Option (Bool × List Nat) :=
  match addOne digits n with
  | none => none
  | some digits =>
    if digitAt digits 0 = 0 then
      (shiftBack digits n).map fun shifted => (true, shifted.set 0 1)
    else some (false, digits)

/-- The groups from `n` on are cleared. -/
def clearFrom (digits : List Nat) (n : Nat) : List Nat :=
  digits.take n ++ List.replicate (digits.length - n) 0

def floor (x : ObNumber) (scale : Int) : Option (Except NumberRet ObNumber) :=
  if scale ≠ 0 then some (.error .invalidArgument)
  else if x.isZero then some (.ok x)
  else if 0 < x.intLen ∧ x.intLen < x.len then
    let cleared := clearFrom x.digits x.intLen.toNat
    match x.sign with
    | .positive =>
      some (.ok { x with digits :=
        if x.intLen < maxStoreLen then cleared.take x.intLen.toNat else cleared })
    | .negative =>
      (increment cleared x.intLen.toNat).map fun (carried, digits) =>
        .ok { sign := .negative
              exp := if carried then (x.exp + 127) % 128 else x.exp
              digits := if x.intLen < maxStoreLen then digits.take x.intLen.toNat else digits }
  else if x.intLen = -1 then
    match x.sign with
    | .positive => some (.ok zero)
    | .negative => some (.ok { sign := .negative, exp := 64, digits := [1] })
  else some (.ok x)

def ceil (x : ObNumber) (scale : Int) : Option (Except NumberRet ObNumber) :=
  if scale ≠ 0 then some (.error .invalidArgument)
  else if x.isZero then some (.ok x)
  else if 0 < x.intLen ∧ x.intLen < x.len then
    let cleared := clearFrom x.digits x.intLen.toNat
    match x.sign with
    | .positive =>
      (increment cleared x.intLen.toNat).map fun (carried, digits) =>
        .ok { sign := .positive
              exp := if carried then (x.exp + 1) % 128 else x.exp
              digits := digits.take (if carried then x.intLen.toNat + 1 else x.intLen.toNat) }
    | .negative => some (.ok { x with digits := cleared.take x.intLen.toNat })
  else if x.intLen < 0 then
    match x.sign with
    | .positive => some (.ok { sign := .positive, exp := 64, digits := [1] })
    | .negative => some (.ok zero)
  else some (.ok x)

/-! ### Increment of the integer groups -/

section

variable {digits : List Nat} {n : Nat}

theorem addOne_spec (hlt : ∀ d ∈ digits, d < base) (hlen : n ≤ digits.length) :
    ∃ out, addOne digits n = some out ∧ out.length = digits.length ∧
      (∀ d ∈ out, d < base) ∧ (∀ j, n ≤ j → digitAt out j = digitAt digits j) ∧
      (window base (digitAt out) 0 n = window base (digitAt digits) 0 n + 1 ∨
        window base (digitAt digits) 0 n + 1 = base ^ n ∧ ∀ j, j < n → digitAt out j = 0) := by
  induction n generalizing digits with
  | zero =>
    exact ⟨digits, rfl, rfl, hlt, fun _ _ => rfl,
      Or.inr ⟨rfl, fun j hj => absurd hj (Nat.not_lt_zero j)⟩⟩
  | succ n ih =>
    have hn : n < digits.length := hlen
    have hget := getElem?_eq_digitAt hn
    have hdigit := digitAt_lt hlt n
    have hfront : ∀ d, window base (digitAt (digits.set n d)) 0 n =
        window base (digitAt digits) 0 n := by
      intro d
      apply window_congr
      intro j hj
      rw [digitAt_set_of_ne (by omega)]
    by_cases hmax : digitAt digits n = base - 1
    · have hunfold : addOne digits (n + 1) = addOne (digits.set n 0) n := by
        simp only [addOne, hget, hmax, ne_eq, not_true_eq_false, if_false]
      have hwindow := window_snoc_max hmax
      obtain ⟨out, hadd, houtlen, houtlt, hsame, hcases⟩ := @ih (digits.set n 0)
        (mem_set_lt hlt base_pos) (by rw [length_set]; exact hn.le)
      have hlast : digitAt out n = 0 := (hsame n le_rfl).trans (digitAt_set_self hn)
      refine ⟨out, hunfold.trans hadd, by rw [houtlen, length_set], houtlt, ?_, ?_⟩
      · intro j hj
        rw [hsame j (by omega), digitAt_set_of_ne (by omega)]
      rw [hfront] at hcases
      rcases hcases with hsum | ⟨hfull, hzeros⟩
      · left
        rw [hwindow, ← hsum, window_snoc, Nat.zero_add, hlast, Nat.add_zero]
      right
      refine ⟨by rw [hwindow, hfull, pow_succ], fun j hj => ?_⟩
      rcases Nat.lt_succ_iff_lt_or_eq.mp hj with hlt' | rfl
      · exact hzeros j hlt'
      · exact hlast
    · refine ⟨digits.set n (digitAt digits n + 1), ?_, length_set .., ?_, ?_, Or.inl ?_⟩
      · simp only [addOne, hget, ne_eq, hmax, not_false_eq_true, if_true]
      · exact mem_set_lt hlt (by omega)
      · intro j hj
        exact digitAt_set_of_ne (by omega)
      · rw [window_snoc, window_snoc, hfront, Nat.zero_add, digitAt_set_self hn, Nat.add_assoc]

theorem shiftBack_zeros (hlen : n < digits.length) (hzeros : ∀ j, j < n → digitAt digits j = 0)
    (hlt : ∀ d ∈ digits, d < base) :
    ∃ out, shiftBack digits n = some out ∧ out.length = digits.length ∧
      (∀ d ∈ out, d < base) ∧ (∀ j, 0 < j → j ≤ n → digitAt out j = 0) ∧
      ∀ j, n < j → digitAt out j = digitAt digits j := by
  induction n generalizing digits with
  | zero => exact ⟨digits, rfl, rfl, hlt, fun j hj hjn => by omega, fun _ _ => rfl⟩
  | succ n ih =>
    have hget : digits[n]? = some (digitAt digits n) :=
      getElem?_eq_digitAt (Nat.lt_of_succ_lt hlen)
    have hdigit := hzeros n (Nat.lt_succ_self n)
    obtain ⟨out, hshift, houtlen, houtlt, hmoved, hsame⟩ := @ih
      (digits.set (n + 1) 0) (by rw [length_set]; omega)
      (fun j hj => by rw [digitAt_set_of_ne (by omega)]; exact hzeros j (by omega))
      (mem_set_lt hlt base_pos)
    refine ⟨out, ?_, by rw [houtlen, length_set], houtlt, ?_, ?_⟩
    · simp only [shiftBack, hget, hdigit, if_pos hlen, hshift]
    · intro j hj hjn
      rcases Nat.lt_succ_iff_lt_or_eq.mp (Nat.lt_succ_of_le hjn) with hlt' | rfl
      · exact hmoved j hj (by omega)
      · rw [hsame _ (by omega), digitAt_set_self hlen]
    · intro j hj
      rw [hsame j (by omega), digitAt_set_of_ne (by omega)]

/-- The integer groups increased by one; after a carry they are `1, 0, …, 0`. -/
inductive Increments (digits : List Nat) (n : Nat) : Option (Bool × List Nat) → Prop
  | within (out : List Nat) (hlt : ∀ d ∈ out, d < base) (hlen : out.length = digits.length)
      (hhead : digitAt out 0 ≠ 0)
      (hsum : window base (digitAt out) 0 n = window base (digitAt digits) 0 n + 1) :
      Increments digits n (some (false, out))
  | carried (out : List Nat) (hlt : ∀ d ∈ out, d < base) (hlen : out.length = digits.length)
      (hhead : digitAt out 0 = 1) (hzeros : ∀ j, 0 < j → j ≤ n → digitAt out j = 0)
      (hfull : window base (digitAt digits) 0 n + 1 = base ^ n) :
      Increments digits n (some (true, out))

theorem increment_spec (hn : 0 < n) (hlen : n < digits.length)
    (hlt : ∀ d ∈ digits, d < base) (hhead : digitAt digits 0 ≠ 0) :
    Increments digits n (increment digits n) := by
  obtain ⟨k, rfl⟩ : ∃ k, n = k + 1 := ⟨n - 1, by omega⟩
  obtain ⟨out, hadd, houtlen, houtlt, hsame, hcases⟩ := addOne_spec hlt hlen.le
  rcases hcases with hsum | ⟨hfull, hzeros⟩
  · have hmany : base ^ k ≤ window base (digitAt out) 0 (k + 1) := by
      rw [hsum]
      exact Nat.le_succ_of_le (pow_le_window hhead)
    have houthead : digitAt out 0 ≠ 0 := head_ne_of_pow_le (fun j _ => digitAt_lt houtlt _) hmany
    have hrun : increment digits (k + 1) = some (false, out) := by
      simp only [increment, hadd, if_neg houthead]
    rw [hrun]
    exact .within out houtlt houtlen houthead hsum
  obtain ⟨moved, hshift, hmovedlen, hmovedlt, hmoved, -⟩ :=
    shiftBack_zeros (by rw [houtlen]; exact hlen) hzeros houtlt
  have hrun : increment digits (k + 1) = some (true, moved.set 0 1) := by
    simp only [increment, hadd, if_pos (hzeros 0 hn), hshift, Option.map_some]
  rw [hrun]
  refine .carried _ (mem_set_lt hmovedlt one_lt_base) ?_ ?_ ?_ hfull
  · rw [length_set, hmovedlen, houtlen]
  · exact digitAt_set_self (by omega)
  · intro j hj hjn
    rw [digitAt_set_of_ne (by omega)]
    exact hmoved j hj hjn

end

section

variable {digits : List Nat} {n : Nat}

section

variable (hn : n ≤ digits.length)

include hn

theorem length_clearFrom :
    (clearFrom digits n).length = digits.length := by
  simp [clearFrom]
  omega

theorem take_clearFrom : (clearFrom digits n).take n = digits.take n := by
  rw [clearFrom, take_append_of_le_length (by simp [hn]), take_take, Nat.min_self]

theorem digitAt_clearFrom {j : Nat} (hj : j < n) :
    digitAt (clearFrom digits n) j = digitAt digits j := by
  have htake : digitAt ((clearFrom digits n).take n) j = digitAt (clearFrom digits n) j :=
    digitAt_take hj
  rw [← htake, take_clearFrom hn, digitAt_take hj]

end

theorem clearFrom_lt (hlt : ∀ d ∈ digits, d < base) : ∀ d ∈ clearFrom digits n, d < base := by
  intro d hd
  rcases mem_append.mp hd with hd | hd
  · exact hlt d (mem_of_mem_take hd)
  · rw [(mem_replicate.mp hd).2]
    exact base_pos

theorem window_clearFrom (hn : n ≤ digits.length) :
    window base (digitAt (clearFrom digits n)) 0 n = window base (digitAt digits) 0 n := by
  apply window_congr
  intro j hj
  rw [Nat.zero_add, digitAt_clearFrom hn hj]

theorem increment_clearFrom (hnormal : Normal digits) (hpos : 0 < n) (hlt : n < digits.length) :
    Increments (clearFrom digits n) n (increment (clearFrom digits n) n) := by
  apply increment_spec hpos
  · rw [length_clearFrom hlt.le]
    exact hlt
  · exact clearFrom_lt hnormal.lt_base
  · rw [digitAt_clearFrom hlt.le hpos]
    exact hnormal.head_ne

end

/-! ### Integer and fractional part -/

theorem intLen_eq (x : ObNumber) :
    x.intLen = if 0 ≤ x.getDecodeExp then x.getDecodeExp + 1 else -1 := by
  have hzero := expZero_eq
  rcases hsign : x.sign with _ | _
  · have hexp : 64 - (x.signExp : Int) = x.getDecodeExp := by
      simp only [signExp, getDecodeExp, hsign]
      omega
    simp only [intLen, hsign, hexp]
  have hexp : (x.signExp : Int) - 192 = x.getDecodeExp := by
    simp only [signExp, getDecodeExp, hsign]
    omega
  simp only [intLen, hsign, hexp]

theorem integer_of_len_le {x : ObNumber} (hlen : (x.len : Int) ≤ x.getDecodeExp + 1) :
    ∃ m : Nat, x.magnitude = m := by
  obtain ⟨k, hk⟩ : ∃ k : Nat, x.getDecodeExp - x.len + 1 = k :=
    ⟨(x.getDecodeExp - x.len + 1).toNat, by omega⟩
  refine ⟨window base (digitAt x.digits) 0 x.len * base ^ k, ?_⟩
  rw [magnitude, scaled, hk, zpow_natCast]
  push_cast
  rfl

section

variable {x : ObNumber} (h : x.Stored)

include h

/-- A number with groups behind the units is its integer groups and a proper
fraction. -/
theorem Stored.fraction {n : Nat} (hn : x.getDecodeExp + 1 = n) (hlt : n < x.len) :
    ∃ f : ℚ, 0 < f ∧ f < 1 ∧
      x.magnitude = ((window base (digitAt x.digits) 0 n : Nat) : ℚ) + f := by
  obtain ⟨k, hk⟩ : ∃ k, x.len = n + (k + 1) := ⟨x.len - n - 1, by omega⟩
  have hpos : (0 : ℚ) < (base : ℚ) ^ (k + 1) := pow_pos (Nat.cast_pos.mpr base_pos) _
  have hlast : digitAt x.digits (n + k) ≠ 0 := by
    have := h.normal.last_ne
    rwa [show x.digits.length - 1 = n + k by have : x.digits.length = x.len := rfl; omega] at this
  refine ⟨((window base (digitAt x.digits) n (k + 1) : Nat) : ℚ) / (base : ℚ) ^ (k + 1), ?_, ?_, ?_⟩
  · apply div_pos _ hpos
    exact_mod_cast window_pos base_pos (Nat.lt_succ_self k) hlast
  · rw [div_lt_one hpos]
    exact_mod_cast window_lt fun j _ => digitAt_lt h.normal.lt_base _
  have hexp : x.getDecodeExp - ((n + (k + 1) : Nat) : Int) + 1 = -((k + 1 : Nat) : Int) := by
    omega
  rw [magnitude, hk, scaled, hexp, window_add_len, Nat.zero_add, zpow_neg, zpow_natCast]
  push_cast
  field_simp

theorem Stored.lt_one (hexp : x.getDecodeExp < 0) : 0 < x.magnitude ∧ x.magnitude < 1 := by
  have hleads := h.leads
  have hbase : (1 : ℚ) ≤ base := by exact_mod_cast base_pos
  constructor
  · rw [← abs_value]
    exact lt_of_lt_of_le (zpow_pos (Nat.cast_pos.mpr base_pos) _) hleads.lower
  · rw [← abs_value]
    apply lt_of_lt_of_le hleads.upper
    exact zpow_le_one_of_nonpos₀ hbase (by omega)

end

/-- Groups whose last one holds the units: the value is an integer, and stored in
canonical form exactly when it does not end in a zero group. -/
theorem stored_of_units (hlt : ∀ d ∈ r.digits, d < base) (hhead : digitAt r.digits 0 ≠ 0)
    (hlen : r.len ≤ maxStoreLen) (hexp : r.getDecodeExp + 1 = r.len) :
    r.magnitude = ((window base (digitAt r.digits) 0 r.len : Nat) : ℚ) ∧
      (r.Stored ↔ ¬ base ∣ window base (digitAt r.digits) 0 r.len) := by
  have hpos : 0 < r.len := by
    rcases hd : r.digits with _ | ⟨d, ds⟩
    · rw [hd] at hhead
      exact absurd rfl hhead
    · simp [len, hd]
  simp only [maxStoreLen] at hlen
  constructor
  · rw [magnitude, scaled, show r.getDecodeExp - r.len + 1 = 0 by omega, zpow_zero, mul_one]
  have hlast : base ∣ window base (digitAt r.digits) 0 r.len ↔
      digitAt r.digits (r.digits.length - 1) = 0 := by
    obtain ⟨k, hk⟩ : ∃ k, r.len = k + 1 := ⟨r.len - 1, by omega⟩
    have hk' : r.digits.length - 1 = k := by
      have : r.digits.length = r.len := rfl
      omega
    rw [hk', hk, window_snoc, Nat.zero_add, Nat.dvd_add_right (Nat.dvd_mul_left _ _)]
    exact ⟨fun hdvd => Nat.eq_zero_of_dvd_of_lt hdvd (digitAt_lt hlt k),
      fun hzero => hzero ▸ Nat.dvd_zero _⟩
  rw [hlast]
  refine ⟨fun hstored => hstored.normal.last_ne, fun hne => ⟨⟨hlt, hhead, hne⟩, hlen, ?_, ?_⟩⟩
  · omega
  · simp only [maxIntegerExp]
    omega

/-- `r` is the integer `v`, in canonical form unless `v` is a nonzero multiple of
the base. -/
def HoldsInteger (r : ObNumber) (v : ℤ) : Prop :=
  r.value = v ∧ (r.Canonical ↔ v = 0 ∨ ¬ (base : ℤ) ∣ v)

theorem canonical_iff_stored (hhead : digitAt r.digits 0 ≠ 0) : r.Canonical ↔ r.Stored := by
  refine ⟨fun hr => hr.resolve_left ?_, Or.inr⟩
  rintro rfl
  exact hhead rfl

theorem HoldsInteger.of_units {m : Nat} (hlt : ∀ d ∈ r.digits, d < base)
    (hhead : digitAt r.digits 0 ≠ 0) (hlen : r.len ≤ maxStoreLen)
    (hexp : r.getDecodeExp + 1 = r.len) (hm : window base (digitAt r.digits) 0 r.len = m)
    (hv : v = m ∧ r.sign = .positive ∨ v = -m ∧ r.sign = .negative) : HoldsInteger r v := by
  obtain ⟨hmagnitude, hstored⟩ := stored_of_units hlt hhead hlen hexp
  rw [hm] at hmagnitude hstored
  have hmpos : 0 < m := by
    rcases hd : r.digits with _ | ⟨d, ds⟩
    · rw [hd] at hhead
      exact absurd rfl hhead
    · rw [← hm]
      exact window_pos (j := 0) base_pos (by simp [len, hd]) hhead
  refine ⟨?_, ?_⟩
  · rw [value, hmagnitude]
    rcases hv with ⟨rfl, hsign⟩ | ⟨rfl, hsign⟩ <;> simp [hsign, signFactor]
  have hdvd : (base : ℤ) ∣ v ↔ base ∣ m := by
    rcases hv with ⟨rfl, -⟩ | ⟨rfl, -⟩
    · exact Int.natCast_dvd_natCast
    · rw [Int.dvd_neg, Int.natCast_dvd_natCast]
  have hne : v ≠ 0 := by omega
  rw [canonical_iff_stored hhead, hstored, hdvd, or_iff_right hne]

section

variable {x : ObNumber} (h : x.Stored) {n : Nat} (hn : x.getDecodeExp + 1 = n)
  (hlt : n < x.len)

include h hn hlt

theorem HoldsInteger.of_within {out : List Nat} {m : Nat} (hpos : 0 < n)
    (hout : ∀ d ∈ out, d < base) (hlen : out.length = x.digits.length) (hhead : digitAt out 0 ≠ 0)
    (hsum : window base (digitAt out) 0 n = m)
    (hv : v = m ∧ x.sign = .positive ∨ v = -(m : ℤ) ∧ x.sign = .negative) :
    HoldsInteger { x with digits := out.take n } v := by
  have htake : (out.take n).length = n := length_take_of_le (by rw [hlen]; exact hlt.le)
  have hle := h.len_le
  apply HoldsInteger.of_units (m := m)
  · exact fun d hd => hout d (mem_of_mem_take hd)
  · rw [digitAt_take hpos]
    exact hhead
  · simp only [len, htake]
    exact (Nat.le_of_lt hlt).trans hle
  · simp only [len, htake]
    exact hn
  · simp only [len, htake, window_digitAt_take]
    exact hsum
  · exact hv

theorem HoldsInteger.of_take
    (hv : v = (window base (digitAt x.digits) 0 n : Nat) ∧ x.sign = .positive ∨
      v = -((window base (digitAt x.digits) 0 n : Nat) : ℤ) ∧ x.sign = .negative) (hpos : 0 < n) :
    HoldsInteger { x with digits := x.digits.take n } v :=
  .of_within h hn hlt hpos h.normal.lt_base rfl h.normal.head_ne rfl hv

theorem ceil_fraction (hsign : x.sign = .positive) (hpos : 0 < n) : ∃ r, x.ceil 0 = some (.ok r) ∧
      HoldsInteger r (window base (digitAt x.digits) 0 n + 1 : Nat) := by
  have hint : x.intLen = n := by rw [intLen_eq, if_pos (by omega), hn]
  have hguard : 0 < x.intLen ∧ x.intLen < x.len := by omega
  have hle := h.len_le
  have hhigh := h.exp_le
  have hzero := expZero_eq
  simp only [maxIntegerExp] at hhigh
  have hspec := increment_clearFrom h.normal hpos hlt
  rw [ceil, if_neg (by simp), h.isZero, if_neg Bool.false_ne_true, if_pos hguard]
  simp only [hsign, hint, Int.toNat_natCast]
  generalize increment (clearFrom x.digits n) n = step at hspec ⊢
  have hx : ∀ digits, ({ sign := .positive, exp := x.exp, digits := digits } : ObNumber) =
      { x with digits := digits } := fun digits => by rw [hsign]
  cases hspec with
  | within out hout hlen hhead hsum =>
    rw [window_clearFrom hlt.le] at hsum
    rw [length_clearFrom hlt.le] at hlen
    refine ⟨_, rfl, ?_⟩
    simp only [Bool.false_eq_true, if_false, hx]
    exact HoldsInteger.of_within h hn hlt hpos hout hlen hhead hsum (Or.inl ⟨rfl, hsign⟩)
  | carried out hout hlen hhead hzeros hfull =>
    rw [window_clearFrom hlt.le] at hfull
    rw [length_clearFrom hlt.le] at hlen
    have htake : (out.take (n + 1)).length = n + 1 :=
      length_take_of_le (by rw [hlen]; exact hlt)
    have hexp : x.getDecodeExp = x.exp - 64 := by
      simp only [getDecodeExp, hsign]
      omega
    refine ⟨_, rfl, ?_⟩
    simp only [if_true]
    apply HoldsInteger.of_units (m := window base (digitAt x.digits) 0 n + 1)
    · exact fun d hd => hout d (mem_of_mem_take hd)
    · rw [digitAt_take (Nat.succ_pos n), hhead]
      exact Nat.one_ne_zero
    · simp only [len, htake]
      exact hlt.trans_le hle
    · simp only [len, htake, getDecodeExp]
      omega
    · simp only [len, htake, window_digitAt_take]
      rw [hfull, window_succ, hhead, Nat.one_mul, window_of_zeros, Nat.add_zero]
      intro j hj
      exact hzeros _ (by omega) (by omega)
    · exact Or.inl ⟨rfl, rfl⟩

/-- Rounding down a negative number: a carry leaves one zero group less than the
positions of the integer part, and none at all for a single group. -/
theorem floor_fraction (hsign : x.sign = .negative) (hpos : 0 < n)
    (hv : v = -((window base (digitAt x.digits) 0 n + 1 : Nat) : ℤ)) :
    ∃ r, x.floor 0 = some (.ok r) ∧ r.value = v ∧
      (r.Canonical ↔ ¬ (base : ℤ) ∣ v ∨ v = -base) := by
  have hint : x.intLen = n := by rw [intLen_eq, if_pos (by omega), hn]
  have hguard : 0 < x.intLen ∧ x.intLen < x.len := by omega
  have hle := h.len_le
  have hhigh := h.exp_le
  have hzero := expZero_eq
  simp only [maxIntegerExp] at hhigh
  have hspec := increment_clearFrom h.normal hpos hlt
  have hshort : (n : Int) < maxStoreLen := by exact_mod_cast hlt.trans_le hle
  rw [floor, if_neg (by simp), h.isZero, if_neg Bool.false_ne_true, if_pos hguard]
  simp only [hsign, hint, Int.toNat_natCast, if_pos hshort]
  generalize increment (clearFrom x.digits n) n = step at hspec ⊢
  have hx : ∀ digits, ({ sign := .negative, exp := x.exp, digits := digits } : ObNumber) =
      { x with digits := digits } := fun digits => by rw [hsign]
  obtain ⟨k, rfl⟩ : ∃ k, n = k + 1 := ⟨n - 1, by omega⟩
  cases hspec with
  | within out hout hlen hhead hsum =>
    rw [window_clearFrom hlt.le] at hsum
    rw [length_clearFrom hlt.le] at hlen
    refine ⟨_, rfl, ?_⟩
    simp only [Bool.false_eq_true, if_false, hx]
    obtain ⟨hvalue, hcanonical⟩ := HoldsInteger.of_within h hn hlt hpos hout hlen hhead hsum
      (Or.inr ⟨hv, hsign⟩)
    refine ⟨hvalue, ?_⟩
    -- without a carry one group stays below the base, and more are above it
    have hbase : window base (digitAt x.digits) 0 (k + 1) + 1 ≠ base := by
      intro hsame
      rcases k with _ | k
      · have hone : window base (digitAt out) 0 (0 + 1) < base :=
          (window_lt fun j _ => digitAt_lt hout _).trans_eq (pow_one base)
        omega
      · have hlow : base ^ (k + 1) ≤ window base (digitAt x.digits) 0 (k + 1 + 1) :=
          pow_le_window h.normal.head_ne
        have hmany : base ≤ base ^ (k + 1) := Nat.le_self_pow (Nat.succ_ne_zero k) base
        omega
    have hne : v ≠ -base := by omega
    rw [hcanonical, or_iff_left hne, or_iff_right (by omega)]
  | carried out hout hlen hhead hzeros hfull =>
    rw [window_clearFrom hlt.le] at hfull
    rw [length_clearFrom hlt.le] at hlen
    have htake : (out.take (k + 1)).length = k + 1 :=
      length_take_of_le (by rw [hlen]; exact hlt.le)
    have hexp : x.getDecodeExp = 64 - x.exp := by
      simp only [getDecodeExp, hsign]
      omega
    have hdecode : ∀ digits, getDecodeExp
        { sign := .negative, exp := (x.exp + 127) % 128, digits := digits } = (k + 1 : Nat) := by
      intro digits
      simp only [getDecodeExp]
      omega
    have hwindow : window base (digitAt out) 0 (k + 1) = base ^ k := by
      rw [window_succ, hhead, Nat.one_mul, window_of_zeros, Nat.add_zero]
      intro j hj
      exact hzeros _ (by omega) (by omega)
    have hhead' : digitAt (out.take (k + 1)) 0 ≠ 0 := by
      rw [digitAt_take (Nat.succ_pos k), hhead]
      exact Nat.one_ne_zero
    rw [hfull] at hv
    refine ⟨_, rfl, ?_, ?_⟩
    · simp only [if_true]
      rw [value, magnitude, hdecode, len]
      simp only [htake]
      rw [scaled, window_digitAt_take, hwindow, hv, show ((k + 1 : Nat) : Int) -
        ((k + 1 : Nat) : Int) + 1 = 1 by omega, zpow_one, signFactor]
      push_cast
      ring
    simp only [if_true]
    rw [canonical_iff_stored hhead']
    rcases k with _ | k
    · refine iff_of_true ⟨⟨fun d hd => hout d (mem_of_mem_take hd), hhead', ?_⟩, ?_, ?_, ?_⟩
        (Or.inr (by rw [hv, pow_one]))
      · rw [htake]
        exact hhead'
      · simp only [len, htake]
        exact hpos.trans_le (hlt.le.trans hle)
      · rw [hdecode]
        omega
      · rw [hdecode]
        simp only [maxIntegerExp]
        omega
    · refine iff_of_false (fun hstored => hstored.normal.last_ne ?_) ?_
      · rw [htake, digitAt_take (by omega)]
        exact hzeros _ (by omega) (by omega)
      · have hmultiple : (base : ℤ) ∣ v := by
          rw [hv, Int.dvd_neg]
          exact_mod_cast Dvd.intro_left (base ^ (k + 1)) rfl
        have hmany := Nat.pow_lt_pow_right one_lt_base (show 1 < k + 1 + 1 by omega)
        rw [pow_one] at hmany
        rintro (hndvd | hsame)
        · exact hndvd hmultiple
        · omega

end

/-! ### The results -/

theorem Canonical.eq_of_value {y : ObNumber} (hr : r.Canonical) (hy : y.Canonical)
    (hvalue : r.value = y.value) : r = y := by
  rcases hr with rfl | hr
  · rcases hy with rfl | hy
    · rfl
    · exact absurd (hvalue.symm.trans value_zero) (hy.leads.ne_zero base_pos)
  rcases hy with rfl | hy
  · exact absurd (hvalue.trans value_zero) (hr.leads.ne_zero base_pos)
  have hexp := (hvalue ▸ hr.leads).unique one_lt_base hy.leads
  have hlen : r.digits.length = y.digits.length := by
    apply Nat.le_antisymm
    · apply length_le_of_normal hr.normal (abs_value r)
      rw [hvalue, hexp]
      exact y.fits
    · apply length_le_of_normal hy.normal (abs_value y)
      rw [← hvalue, ← hexp]
      exact r.fits
  have hmagnitude : r.magnitude = y.magnitude := by
    rw [← abs_value, ← abs_value, hvalue]
  have hdigits : r.digits = y.digits := by
    have hpos : (0 : ℚ) < (base : ℚ) ^ (y.getDecodeExp - y.len + 1) :=
      zpow_pos (Nat.cast_pos.mpr base_pos) _
    have hlen' : r.len = y.len := hlen
    rw [magnitude, magnitude, scaled, scaled, hexp, hlen'] at hmagnitude
    have hwindow := mul_right_cancel₀ hpos.ne' hmagnitude
    have hsame := window_injective (fun j _ => digitAt_lt hr.normal.lt_base _)
      (fun j _ => digitAt_lt hy.normal.lt_base _) (by exact_mod_cast hwindow)
    apply ext_getElem? fun j => ?_
    rcases Nat.lt_or_ge j r.digits.length with hj | hj
    · have := hsame j (by rwa [← hlen'])
      rw [Nat.zero_add] at this
      rw [getElem?_eq_digitAt hj, getElem?_eq_digitAt (by omega), this]
    · rw [List.getElem?_eq_none hj, List.getElem?_eq_none (by omega)]
  have hsign : r.sign = y.sign := by
    have hpos : 0 < y.magnitude := by
      rw [← abs_value]
      exact abs_pos.mpr (hy.leads.ne_zero base_pos)
    rw [value, value, hmagnitude] at hvalue
    have := mul_right_cancel₀ hpos.ne' hvalue
    revert this
    cases r.sign <;> cases y.sign <;> norm_num [signFactor]
  have hraw : r.exp = y.exp := by
    rw [← hr.encodeExp_getDecodeExp, ← hy.encodeExp_getDecodeExp, hexp, hsign]
  exact ObNumber.ext hsign hraw hdigits

theorem uint32cmp_self (digits : List Nat) : uint32cmp digits digits = .eq := by
  induction digits with
  | nil => rfl
  | cons d ds ih => simp [uint32cmp, ih]

theorem compare_self (x : ObNumber) : x.compare x = .eq := by
  simp [compare, uint32cmp_self]

theorem not_integer {v f : ℚ} {w : Nat} (hpos : 0 < f) (hlt : f < 1) (habs : |v| = w + f) :
    ¬ ∃ m : ℤ, v = m := by
  rintro ⟨m, rfl⟩
  have hcast : |(m : ℚ)| = (m.natAbs : ℚ) := by rw [Nat.cast_natAbs, Int.cast_abs]
  have hlow : w < m.natAbs := by
    have : (w : ℚ) < m.natAbs := by linarith
    exact_mod_cast this
  have hhigh : m.natAbs < w + 1 := by
    have : (m.natAbs : ℚ) < (w + 1 : Nat) := by
      push_cast
      linarith
    exact_mod_cast this
  omega

section

variable {x : ObNumber} (h : x.Stored)

include h

/-- Where the integer part ends, and what follows it. -/
theorem integer_cases :
    (x.intLen = -1 ∧ 0 < x.magnitude ∧ x.magnitude < 1 ∧ ¬ ∃ m : ℤ, x.value = m) ∨
      (∃ (n : Nat) (f : ℚ), x.getDecodeExp + 1 = n ∧ 0 < n ∧ x.intLen = n ∧ n < x.len ∧
        0 < f ∧ f < 1 ∧ x.magnitude = window base (digitAt x.digits) 0 n + f ∧
        ¬ ∃ m : ℤ, x.value = m) ∨
      0 < x.intLen ∧ x.len ≤ x.intLen ∧ ∃ m : ℤ, x.value = m := by
  rcases lt_or_ge x.getDecodeExp 0 with hexp | hexp
  · obtain ⟨hmpos, hmlt⟩ := h.lt_one hexp
    refine .inl ⟨by rw [intLen_eq, if_neg (by omega)], hmpos, hmlt, ?_⟩
    exact not_integer (w := 0) hmpos hmlt (by rw [abs_value, Nat.cast_zero, zero_add])
  obtain ⟨n, hn⟩ : ∃ n : Nat, x.getDecodeExp + 1 = n :=
    ⟨(x.getDecodeExp + 1).toNat, by omega⟩
  have hint : x.intLen = n := by rw [intLen_eq, if_pos hexp, hn]
  rcases Nat.lt_or_ge n x.len with hlt | hge
  · obtain ⟨f, hfpos, hfone, hmagnitude⟩ := h.fraction hn hlt
    exact .inr (.inl ⟨n, f, hn, by omega, hint, hlt, hfpos, hfone, hmagnitude,
      not_integer hfpos hfone ((abs_value x).trans hmagnitude)⟩)
  obtain ⟨m, hm⟩ := integer_of_len_le (x := x) (by omega)
  refine .inr (.inr ⟨by omega, by omega, ?_⟩)
  rw [value, hm]
  cases x.sign
  · exact ⟨-m, by simp [signFactor]⟩
  · exact ⟨m, by simp [signFactor]⟩

/-- An integer stays as it is; otherwise the groups of the floor end with the units,
unless a carry has left the single group of `-10^9`. -/
theorem floor_spec : ∃ r, x.floor 0 = some (.ok r) ∧ r.value = (⌊x.value⌋ : ℤ) ∧
    (r.Canonical ↔ (∃ m : ℤ, x.value = m) ∨ ⌊x.value⌋ = 0 ∨ ¬ (base : ℤ) ∣ ⌊x.value⌋ ∨
      ⌊x.value⌋ = -base) := by
  rcases integer_cases h with ⟨hint, hmpos, hmlt, hnot⟩ |
    ⟨n, f, hn, hpos, hint, hlt, hfpos, hfone, hmagnitude, hnot⟩ | ⟨hpos, hge, m, hm⟩
  · rw [or_iff_right hnot, floor, if_neg (by simp), h.isZero, if_neg Bool.false_ne_true, hint,
      if_neg (by omega), if_pos rfl]
    rcases hsign : x.sign with _ | _
    · have hfloor : ⌊x.value⌋ = -1 := by
        rw [Int.floor_eq_iff, value, hsign, signFactor]
        push_cast
        constructor <;> linarith
      rw [hfloor]
      refine ⟨_, rfl, ?_, iff_of_true (Or.inr ?_) (by decide)⟩
      · simp [value, magnitude, scaled, getDecodeExp, signFactor, len, expZero]
      · exact ⟨⟨by decide, by decide, by decide⟩, by decide, by decide, by decide⟩
    · have hfloor : ⌊x.value⌋ = 0 := by
        rw [Int.floor_eq_iff, value, hsign, signFactor]
        push_cast
        constructor <;> linarith
      rw [hfloor]
      exact ⟨_, rfl, by simp, iff_of_true (Or.inl rfl) (Or.inl rfl)⟩
  · rw [or_iff_right hnot]
    rcases hsign : x.sign with _ | _
    · have hfloor : ⌊x.value⌋ = -((window base (digitAt x.digits) 0 n + 1 : Nat) : ℤ) := by
        rw [Int.floor_eq_iff, value, hsign, signFactor, hmagnitude]
        push_cast
        constructor <;> linarith
      obtain ⟨r, hrun, hvalue, hcanonical⟩ := floor_fraction h hn hlt hsign hpos hfloor
      exact ⟨r, hrun, hvalue, by rw [hcanonical, or_iff_right (a := ⌊x.value⌋ = 0) (by omega)]⟩
    have hshort : (n : Int) < maxStoreLen := by exact_mod_cast hlt.trans_le h.len_le
    have hrun : x.floor 0 = some (.ok { x with digits := x.digits.take n }) := by
      rw [floor, if_neg (by simp), h.isZero, if_neg Bool.false_ne_true,
        if_pos (by omega)]
      simp only [hsign, hint, if_pos hshort, Int.toNat_natCast, take_clearFrom hlt.le]
    have hfloor : ⌊x.value⌋ = ((window base (digitAt x.digits) 0 n : Nat) : ℤ) := by
      rw [Int.floor_eq_iff, value, hsign, signFactor, hmagnitude]
      push_cast
      constructor <;> linarith
    obtain ⟨hvalue, hcanonical⟩ := HoldsInteger.of_take h hn hlt (Or.inl ⟨hfloor, hsign⟩) hpos
    have hbase := base_pos
    refine ⟨_, hrun, hvalue, ?_⟩
    rw [hcanonical, or_iff_left (a := ¬ (base : ℤ) ∣ _) (by omega)]
  · have hrun : x.floor 0 = some (.ok x) := by
      rw [floor, if_neg (by simp), h.isZero, if_neg Bool.false_ne_true, if_neg (by omega),
        if_neg (by omega)]
    exact ⟨x, hrun, by rw [hm, Int.floor_intCast], iff_of_true (Or.inr h) (Or.inl ⟨m, hm⟩)⟩

theorem ceil_spec : ∃ r, x.ceil 0 = some (.ok r) ∧ r.value = (⌈x.value⌉ : ℤ) ∧
    (r.Canonical ↔ (∃ m : ℤ, x.value = m) ∨ ⌈x.value⌉ = 0 ∨ ¬ (base : ℤ) ∣ ⌈x.value⌉) := by
  rcases integer_cases h with ⟨hint, hmpos, hmlt, hnot⟩ |
    ⟨n, f, hn, hpos, hint, hlt, hfpos, hfone, hmagnitude, hnot⟩ | ⟨hpos, hge, m, hm⟩
  · rw [or_iff_right hnot, ceil, if_neg (by simp), h.isZero, if_neg Bool.false_ne_true, hint,
      if_neg (by omega), if_pos (by decide)]
    rcases hsign : x.sign with _ | _
    · have hceil : ⌈x.value⌉ = 0 := by
        rw [Int.ceil_eq_iff, value, hsign, signFactor]
        push_cast
        constructor <;> linarith
      rw [hceil]
      exact ⟨_, rfl, by simp, iff_of_true (Or.inl rfl) (Or.inl rfl)⟩
    · have hceil : ⌈x.value⌉ = 1 := by
        rw [Int.ceil_eq_iff, value, hsign, signFactor]
        push_cast
        constructor <;> linarith
      rw [hceil]
      refine ⟨_, rfl, ?_, iff_of_true (Or.inr ?_) (by decide)⟩
      · simp [value, magnitude, scaled, getDecodeExp, signFactor, len, expZero]
      · exact ⟨⟨by decide, by decide, by decide⟩, by decide, by decide, by decide⟩
  · rw [or_iff_right hnot]
    rcases hsign : x.sign with _ | _
    · have hrun : x.ceil 0 = some (.ok { x with digits := x.digits.take n }) := by
        rw [ceil, if_neg (by simp), h.isZero, if_neg Bool.false_ne_true, if_pos (by omega)]
        simp only [hsign, hint, Int.toNat_natCast, take_clearFrom hlt.le]
      have hceil : ⌈x.value⌉ = -((window base (digitAt x.digits) 0 n : Nat) : ℤ) := by
        rw [Int.ceil_eq_iff, value, hsign, signFactor, hmagnitude]
        push_cast
        constructor <;> linarith
      exact ⟨_, hrun, HoldsInteger.of_take h hn hlt (Or.inr ⟨hceil, hsign⟩) hpos⟩
    · obtain ⟨r, hrun, hr⟩ := ceil_fraction h hn hlt hsign hpos
      have hceil : ⌈x.value⌉ = ((window base (digitAt x.digits) 0 n + 1 : Nat) : ℤ) := by
        rw [Int.ceil_eq_iff, value, hsign, signFactor, hmagnitude]
        push_cast
        constructor <;> linarith
      rw [hceil]
      exact ⟨r, hrun, hr⟩
  · have hrun : x.ceil 0 = some (.ok x) := by
      rw [ceil, if_neg (by simp), h.isZero, if_neg Bool.false_ne_true, if_neg (by omega),
        if_neg (by omega)]
    exact ⟨x, hrun, by rw [hm, Int.ceil_intCast], iff_of_true (Or.inr h) (Or.inl ⟨m, hm⟩)⟩

end

/-- The call leaves the canonical form of the integer `v`, which compares equal to every
canonical number of that value. -/
def Yields (call : Option (Except NumberRet ObNumber)) (v : ℤ) : Prop :=
  ∃ r, call = some (.ok r) ∧ r.value = v ∧ r.Canonical ∧
    ∀ y : ObNumber, y.Canonical → y.value = v → r.compare y = .eq

theorem yields_iff {call : Option (Except NumberRet ObNumber)} (hcall : call = some (.ok r))
    (hvalue : r.value = v) : Yields call v ↔ r.Canonical := by
  subst hcall
  constructor
  · rintro ⟨_, ⟨⟩, -, hcanonical, -⟩
    exact hcanonical
  · intro hcanonical
    refine ⟨r, rfl, hvalue, hcanonical, fun y hy hyvalue => ?_⟩
    rw [hcanonical.eq_of_value hy (hvalue.trans hyvalue.symm)]
    exact compare_self y

/-- Floor and ceil always have the right value.  They are in canonical form exactly when
no fraction is cut off or the integer does not end in a zero group, and floor also when it
is `-10^9`. -/
theorem floor_ceil_yields {x : ObNumber} (hx : x.Canonical) :
    ((∃ r, x.floor 0 = some (.ok r) ∧ r.value = (⌊x.value⌋ : ℤ)) ∧
      (Yields (x.floor 0) ⌊x.value⌋ ↔ (∃ m : ℤ, x.value = m) ∨ ⌊x.value⌋ = 0 ∨
        ¬ (base : ℤ) ∣ ⌊x.value⌋ ∨ ⌊x.value⌋ = -base)) ∧
    (∃ r, x.ceil 0 = some (.ok r) ∧ r.value = (⌈x.value⌉ : ℤ)) ∧
      (Yields (x.ceil 0) ⌈x.value⌉ ↔ (∃ m : ℤ, x.value = m) ∨ ⌈x.value⌉ = 0 ∨
        ¬ (base : ℤ) ∣ ⌈x.value⌉) := by
  rcases hx with rfl | h
  · have hzero : ∀ call : Option (Except NumberRet ObNumber), call = some (.ok zero) →
        Yields call 0 := fun call hcall => (yields_iff hcall (by simp)).mpr (Or.inl rfl)
    have hinteger : ∃ m : ℤ, (0 : ℚ) = m := ⟨0, by simp⟩
    rw [value_zero, Int.floor_zero, Int.ceil_zero]
    exact ⟨⟨⟨zero, rfl, by simp⟩, iff_of_true (hzero _ rfl) (Or.inl hinteger)⟩,
      ⟨zero, rfl, by simp⟩, iff_of_true (hzero _ rfl) (Or.inl hinteger)⟩
  obtain ⟨r, hfloor, hvalue, hcanonical⟩ := floor_spec h
  obtain ⟨r', hceil, hvalue', hcanonical'⟩ := ceil_spec h
  exact ⟨⟨⟨r, hfloor, hvalue⟩, by rw [yields_iff hfloor hvalue, hcanonical]⟩,
    ⟨r', hceil, hvalue'⟩, by rw [yields_iff hceil hvalue', hcanonical']⟩

/-- Floor and ceil of `-999999999.5`. -/
theorem floor_ceil_yields_negative :
    let x : ObNumber := { sign := .negative, exp := 64, digits := [999999999, 500000000] }
    Yields (x.floor 0) (-1000000000) ∧ Yields (x.ceil 0) (-999999999) := by
  intro x
  have hx : x.value = -(999999999 + 1 / 2) := by
    norm_num [x, value, magnitude, scaled, signFactor, getDecodeExp, expZero, len, window,
      digitAt, base]
  have hfloor : ⌊x.value⌋ = -1000000000 := by
    rw [Int.floor_eq_iff, hx]
    norm_num
  have hceil : ⌈x.value⌉ = -999999999 := by
    rw [Int.ceil_eq_iff, hx]
    norm_num
  have hyields := floor_ceil_yields (x := x)
    (Or.inr ⟨⟨by decide, by decide, by decide⟩, by decide, by decide, by decide⟩)
  rw [hfloor, hceil] at hyields
  exact ⟨hyields.1.2.mpr (Or.inr (by decide)), hyields.2.2.mpr (Or.inr (by decide))⟩

/-- The floor of `10^9 + 0.5` keeps a zero group: it is not in canonical form and
compares greater than `10^9`. -/
theorem floor_keeps_zero_group :
    let x : ObNumber := { sign := .positive, exp := 65, digits := [1, 0, 500000000] }
    let y : ObNumber := { sign := .positive, exp := 65, digits := [1] }
    x.Canonical ∧ y.Canonical ∧ y.value = (⌊x.value⌋ : ℤ) ∧
      ∃ r, x.floor 0 = some (.ok r) ∧ ¬ r.Canonical ∧ r.compare y = .gt := by
  intro x y
  have hy : y.value = 1000000000 := by
    norm_num [y, value, magnitude, scaled, signFactor, getDecodeExp, expZero, len, window,
      digitAt, base]
  have hx : x.value = 1000000000 + 1 / 2 := by
    norm_num [x, value, magnitude, scaled, signFactor, getDecodeExp, expZero, len, window,
      digitAt, base]
  have hfloor : ⌊x.value⌋ = 1000000000 := by
    rw [Int.floor_eq_iff, hx]
    norm_num
  refine ⟨?_, ?_, ?_, { sign := .positive, exp := 65, digits := [1, 0] }, by decide, ?_,
    by decide⟩
  · exact Or.inr ⟨⟨by decide, by decide, by decide⟩, by decide, by decide, by decide⟩
  · exact Or.inr ⟨⟨by decide, by decide, by decide⟩, by decide, by decide, by decide⟩
  · rw [hy, hfloor]
    norm_num
  · rintro (hzero | hstored)
    · exact absurd hzero (by decide)
    · exact hstored.normal.last_ne (by decide)

end SeekDB.ObNumber
