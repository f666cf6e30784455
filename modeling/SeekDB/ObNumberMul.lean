/-
Multiplication of numbers: column sums of the digit products, then one pass of
carries from the least significant column on.
-/
import SeekDB.ObNumberAdd

namespace SeekDB.ObNumber

open List Nat Option Function Positional

variable {out : Nat → Nat}

def multBufferSize : Nat := 21

/-- One digit times the digits of the multiplier, added from `slot` on. -/
def mulRow (digit : Nat) : List Nat → Nat → CheckedArray Nat → Option (CheckedArray Nat)
  | [], _, sum => some sum
  | d :: rest, slot, sum =>
    (sum.get? slot).bind fun cell =>
      (unsigned 64 (digit * d)).bind fun product =>
        (unsigned 64 (cell + product)).bind fun total =>
          (sum.set? slot total).bind (mulRow digit rest (slot + 1))

def mulRows (multiplier : List Nat) :
    List Nat → Nat → CheckedArray Nat → Option (CheckedArray Nat)
  | [], _, sum => some sum
  | d :: rest, i, sum => (mulRow d multiplier (i + 1) sum).bind (mulRows multiplier rest (i + 1))

structure MulState where
  res : CheckedArray Nat
  carry : Nat
  sumLen : SumLen

/-- The carry into column `i`; only the first ten columns are stored. -/
def mulCarryRound (sum : CheckedArray Nat) (i : Nat) (s : MulState) : Option MulState :=
  (sum.get? i).bind fun cell =>
    (unsigned 64 (cell + s.carry)).bind fun column =>
      let carry := if base ≤ column then column / base else 0
      let digit := if base ≤ column then column - carry * base else column
      (if i ≤ maxDecimalDigit then s.res.set? i digit else some s.res).map fun res =>
        { res := res
          carry := carry
          sumLen := s.sumLen.see (digit == 0) }

def mulCarryLoop (sum : CheckedArray Nat) : Nat → MulState → Option MulState
  | 0, s => some s
  | i + 1, s => (mulCarryRound sum i s).bind (mulCarryLoop sum i)

def finishMul (sign : NumberSign) (sumExp : Int) (s : MulState) :
    Option (Except NumberRet ObNumber) :=
  (s.res.get? 0).bind fun first =>
    let offset := if first ≠ 0 then 0 else 1
    let sumExp := if first ≠ 0 then sumExp + 1 else sumExp
    let digitsLen := min (s.sumLen.len - offset) maxDecimalDigit
    (s.res.slice? offset digitsLen).map (calcDescAndAssign sign sumExp)

/-- The product of two nonzero numbers; `junk` is what the result buffer holds
before it is written. -/
def mulDigits (junk : Nat → Nat) (x other : ObNumber) : Option (Except NumberRet ObNumber) :=
  let multiplicand := if other.len < x.len then other.digits else x.digits
  let multiplier := if other.len < x.len then x.digits else other.digits
  let sumExp := x.getDecodeExp + other.getDecodeExp
  let sumLen := x.len + other.len
  let sign := if x.sign = other.sign then .positive else .negative
  let res : CheckedArray Nat := { size := calcBufferSize, cell := junk }
  (if sumLen ≤ maxDecimalDigit then
      res.store? sumLen (List.replicate (maxDecimalDigit - sumLen + 1) 0)
    else some res).bind fun res =>
    (mulRows multiplier multiplicand 0 { size := multBufferSize, cell := fun _ => 0 }).bind
      fun sum =>
        (mulCarryLoop sum sumLen
          { res := res
            carry := 0
            sumLen := { len := sumLen, check := true } }).bind (finishMul sign sumExp)

def mulV3 (junk : Nat → Nat) (x other : ObNumber) : Option (Except NumberRet ObNumber) :=
  (if x.isZero || other.isZero then some (.ok zero)
    else mulDigits junk x other).bind roundAfterArithmetic

/-! ### Column sums -/

/-- The largest product of two digits. -/
def maxProduct : Nat := (base - 1) * (base - 1)

theorem mul_le_maxProduct {c d : Nat} (hc : c < base) (hd : d < base) : c * d ≤ maxProduct :=
  Nat.mul_le_mul (le_sub_one_of_lt hc) (le_sub_one_of_lt hd)

theorem maxProduct_eq : maxProduct = 999999998000000001 := rfl

/-- The value of a digit list. -/
def digitsValue (digits : List Nat) : Nat := window base (digitAt digits) 0 digits.length

theorem digitsValue_cons (d : Nat) (rest : List Nat) :
    digitsValue (d :: rest) = d * base ^ rest.length + digitsValue rest := by
  rw [digitsValue, length_cons, window_succ, digitAt_cons_zero, digitsValue]
  congr 1
  apply window_congr
  intro j _
  rw [Nat.zero_add, Nat.zero_add, Nat.add_comm, digitAt_cons_succ]

theorem mulRow_spec {digit bound T slot : Nat} {multiplier : List Nat}
    {sum : CheckedArray Nat} (hdigit : digit < base) (hmultiplier : ∀ d ∈ multiplier, d < base)
    (hT : slot + multiplier.length ≤ T) (hsize : T ≤ sum.size)
    (hlater : ∀ j, slot ≤ j → sum.cell j ≤ bound)
    (hall : ∀ j, sum.cell j ≤ bound + maxProduct) (hbound : bound + maxProduct < 2 ^ 64) :
    ∃ sum', mulRow digit multiplier slot sum = some sum' ∧ sum'.size = sum.size ∧
      (∀ j, sum'.cell j ≤ bound + maxProduct) ∧
      window base sum'.cell 0 T = window base sum.cell 0 T +
        digit * digitsValue multiplier * base ^ (T - slot - multiplier.length) := by
  induction multiplier generalizing slot sum with
  | nil => exact ⟨sum, rfl, rfl, hall, by simp [digitsValue]⟩
  | cons d rest ih =>
    have hd : d < base := hmultiplier d mem_cons_self
    have hrest : ∀ c ∈ rest, c < base := fun c hc => hmultiplier c (mem_cons_of_mem d hc)
    have hproduct := mul_le_maxProduct hdigit hd
    have hcell := hlater slot le_rfl
    rw [length_cons] at hT
    have hslot : slot < sum.size := by omega
    have hother : ∀ j, j ≠ slot →
        Function.update sum.cell slot (sum.cell slot + digit * d) j = sum.cell j :=
      fun j hj => update_of_ne hj _ _
    obtain ⟨sum', hrow, hsize', hcells, hwindow⟩ := @ih (slot + 1)
      ⟨sum.size, Function.update sum.cell slot (sum.cell slot + digit * d)⟩
      hrest (by omega) hsize
      (fun j hj => (hother j (by omega)).trans_le (hlater j (by omega)))
      (by
        intro j
        rcases eq_or_ne j slot with rfl | hne
        · simp only [update_self]
          omega
        · exact (hother j hne).trans_le (hall j))
    refine ⟨sum', ?_, hsize', hcells, ?_⟩
    · rw [mulRow, CheckedArray.get?_eq hslot, bind_some, unsigned_eq (by omega),
        bind_some, unsigned_eq (by omega), bind_some,
        CheckedArray.set?_eq hslot, bind_some, hrow]
    have hadd : window base (Function.update sum.cell (0 + slot)
        (sum.cell (0 + slot) + digit * d)) 0 T =
          window base sum.cell 0 T + digit * d * base ^ (T - 1 - slot) :=
      window_update_add (digit * d) (by omega)
    rw [Nat.zero_add] at hadd
    rw [hwindow, hadd, digitsValue_cons, length_cons, Nat.add_assoc]
    congr 1
    have hexp : T - 1 - slot = rest.length + (T - (slot + 1) - rest.length) := by omega
    rw [hexp, pow_add, show T - slot - (rest.length + 1) = T - (slot + 1) - rest.length by
      omega]
    ring

theorem mulRows_spec {bound T i : Nat} {multiplicand multiplier : List Nat} {sum : CheckedArray Nat}
    (hmultiplicand : ∀ d ∈ multiplicand, d < base) (hmultiplier : ∀ d ∈ multiplier, d < base)
    (hT : i + multiplicand.length + multiplier.length ≤ T) (hsize : T ≤ sum.size)
    (hall : ∀ j, sum.cell j ≤ bound) (hbound : bound + multiplicand.length * maxProduct < 2 ^ 64) :
    ∃ sum', mulRows multiplier multiplicand i sum = some sum' ∧ sum'.size = sum.size ∧
      (∀ j, sum'.cell j ≤ bound + multiplicand.length * maxProduct) ∧
      window base sum'.cell 0 T = window base sum.cell 0 T +
        digitsValue multiplicand * digitsValue multiplier *
          base ^ (T - i - multiplicand.length - multiplier.length) := by
  induction multiplicand generalizing i sum bound with
  | nil => exact ⟨sum, rfl, rfl, by simpa using hall, by simp [digitsValue]⟩
  | cons d rest ih =>
    have hd : d < base := hmultiplicand d mem_cons_self
    have hrest : ∀ c ∈ rest, c < base := fun c hc => hmultiplicand c (mem_cons_of_mem d hc)
    rw [length_cons, succ_mul] at hbound
    rw [length_cons] at hT
    obtain ⟨sum', hrow, hsize', hcells, hwindow⟩ := @mulRow_spec d bound T (i + 1)
      multiplier sum hd hmultiplier (by omega) hsize (fun j _ => hall j)
      (fun j => le_add_right_of_le (hall j)) (by omega)
    obtain ⟨sum'', hrows, hsize'', hcells', hwindow'⟩ := @ih _ (i + 1) sum' hrest (by omega)
      (by rw [hsize']; exact hsize) hcells (by omega)
    refine ⟨sum'', ?_, hsize''.trans hsize', ?_, ?_⟩
    · rw [mulRows, hrow, bind_some, hrows]
    · intro j
      have := hcells' j
      rw [length_cons, succ_mul]
      omega
    rw [hwindow', hwindow, digitsValue_cons, length_cons, Nat.add_assoc]
    congr 1
    have hexp : T - (i + 1) - multiplier.length =
        rest.length + (T - (i + 1) - rest.length - multiplier.length) := by omega
    rw [hexp, pow_add, show T - i - (rest.length + 1) - multiplier.length =
      T - (i + 1) - rest.length - multiplier.length by omega]
    ring

/-! ### Carries -/

/-- The columns from `p` on are reduced to the digits `out`, of which the first
ten are stored. -/
structure MulInv (cells out : Nat → Nat) (T p : Nat) (s : MulState) : Prop where
  size_eq : s.res.size = calcBufferSize
  digits : ∀ j, p ≤ j → j < T → out j < base
  stored : ∀ j, p ≤ j → j < T → j ≤ maxDecimalDigit → s.res.cell j = out j
  carry_le : s.carry ≤ 9 * base
  total : window base out p (T - p) + s.carry * base ^ (T - p) = window base cells p (T - p)
  trims : s.sumLen.Trims out p T

theorem mulCarryRound_spec {sum : CheckedArray Nat} {T p : Nat}
    {s : MulState} (h : MulInv sum.cell out T (p + 1) s) (hp : p < T) (hT : T ≤ sum.size)
    (hcell : sum.cell p ≤ 9 * maxProduct) :
    ∃ t out', mulCarryRound sum p s = some t ∧ MulInv sum.cell out' T p t := by
  have hcarry := h.carry_le
  have hbase := base_eq
  have hproduct := maxProduct_eq
  have hsize := h.size_eq
  generalize hcolumn : sum.cell p + s.carry = column
  obtain ⟨carry, hcarry'⟩ : ∃ c, c = if base ≤ column then column / base else 0 := ⟨_, rfl⟩
  obtain ⟨digit, hdigit⟩ : ∃ d, d = if base ≤ column then column - carry * base else column :=
    ⟨_, rfl⟩
  have hsplit : digit + carry * base = column ∧ digit < base := by
    rw [hdigit, hcarry', hbase]
    split_ifs <;> omega
  have hres : ∃ res, (if p ≤ maxDecimalDigit then s.res.set? p digit else some s.res) = some res ∧
      res.size = s.res.size ∧ (p ≤ maxDecimalDigit → res.cell p = digit) ∧
      ∀ j, j ≠ p → res.cell j = s.res.cell j := by
    split_ifs with hstored
    · have hslot : p < s.res.size := by
        rw [hsize]
        exact lt_succ_of_le hstored
      rw [CheckedArray.set?_eq hslot]
      exact ⟨_, rfl, rfl, fun _ => update_self _ _ _,
        fun j hj => update_of_ne hj _ _⟩
    · exact ⟨s.res, rfl, rfl, fun hstored' => absurd hstored' hstored, fun j _ => rfl⟩
  obtain ⟨res, hset, hressize, hhere, hother⟩ := hres
  refine ⟨{ res := res, carry := carry, sumLen := s.sumLen.see (digit == 0) },
    Function.update out p digit, ?_, ?_⟩
  · rw [mulCarryRound, CheckedArray.get?_eq (by omega), bind_some,
      unsigned_eq (by rw [hcolumn]; omega), bind_some]
    simp only [hcolumn, ← hcarry', ← hdigit, hset, map_some]
  have hout : ∀ j, p < j → Function.update out p digit j = out j :=
    fun j hj => update_of_ne (Nat.ne_of_gt hj) _ _
  have hself : Function.update out p digit p = digit := update_self _ _ _
  have hsub : T - p = T - (p + 1) + 1 := by omega
  constructor
  · exact hressize.trans hsize
  · intro j hj hjT
    rcases Nat.eq_or_lt_of_le hj with rfl | hlt
    · exact hself.trans_lt hsplit.2
    · exact (hout j hlt).trans_lt (h.digits j hlt hjT)
  · intro j hj hjT hten
    rcases Nat.eq_or_lt_of_le hj with rfl | hlt
    · exact (hhere hten).trans hself.symm
    · rw [hout j hlt]
      exact (hother j (Nat.ne_of_gt hlt)).trans (h.stored j hlt hjT hten)
  · have hsum := hsplit.1
    simp only
    rw [hbase] at hsum hcarry ⊢
    omega
  · rw [hsub]
    apply window_carry (c := s.carry)
    · rw [← h.total]
      congr 1
      apply window_congr
      intro j _
      exact hout _ (by omega)
    · rw [hself, hsplit.1, hcolumn]
  · apply h.trims.see hp hout
    simp only [beq_iff_eq, hself]

theorem mulCarryLoop_spec {sum : CheckedArray Nat} {T p : Nat}
    {s : MulState} (h : MulInv sum.cell out T p s) (hp : p ≤ T) (hT : T ≤ sum.size)
    (hcell : ∀ j, sum.cell j ≤ 9 * maxProduct) :
    ∃ t out', mulCarryLoop sum p s = some t ∧ MulInv sum.cell out' T 0 t := by
  induction p generalizing s out with
  | zero => exact ⟨s, out, rfl, h⟩
  | succ p ih =>
    obtain ⟨t, out', hround, ht⟩ := mulCarryRound_spec h hp hT (hcell p)
    obtain ⟨u, out'', hloop, hu⟩ := ih ht (Nat.le_of_lt hp)
    exact ⟨u, out'', by rw [mulCarryLoop, hround, bind_some, hloop], hu⟩

/-! ### The product -/

theorem mul_magnitude {a b : ObNumber}
    (hwindow : window base out 0 (a.len + b.len) = digitsValue a.digits * digitsValue b.digits) :
    a.magnitude * b.magnitude =
      scaled base out (a.getDecodeExp + b.getDecodeExp + 1) 0 (a.len + b.len) := by
  have hne : (base : ℚ) ≠ 0 := by exact_mod_cast base_pos.ne'
  have hunit : (base : ℚ) ^ (a.getDecodeExp + b.getDecodeExp + 1 - (a.len + b.len : Nat) + 1) =
      (base : ℚ) ^ (a.getDecodeExp - a.len + 1) * (base : ℚ) ^ (b.getDecodeExp - b.len + 1) := by
    rw [← zpow_add₀ hne]
    congr 1
    push_cast
    ring
  have hadigits : window base (digitAt a.digits) 0 a.len = digitsValue a.digits := rfl
  have hbdigits : window base (digitAt b.digits) 0 b.len = digitsValue b.digits := rfl
  rw [magnitude, magnitude, scaled, scaled, scaled, hwindow, hunit, hadigits, hbdigits]
  push_cast
  ring

section

variable {a b : ObNumber} (ha : a.Stored) (hb : b.Stored)

include ha hb

theorem mulRows_product :
    ∃ sum, mulRows b.digits a.digits 0 { size := multBufferSize, cell := fun _ => 0 } =
        some sum ∧ sum.size = multBufferSize ∧ (∀ j, sum.cell j ≤ 9 * maxProduct) ∧
      window base sum.cell 0 (a.len + b.len) = digitsValue a.digits * digitsValue b.digits := by
  have halen : a.len = a.digits.length := rfl
  have hblen : b.len = b.digits.length := rfl
  have hale := ha.len_le
  have hble := hb.len_le
  simp only [maxStoreLen] at hale hble
  have hproduct := maxProduct_eq
  have hmul : a.digits.length * maxProduct ≤ 9 * maxProduct :=
    Nat.mul_le_mul_right _ (halen ▸ hale)
  obtain ⟨sum, hrun, hsize, hcells, hwindow⟩ := @mulRows_spec 0 (a.len + b.len) 0
    a.digits b.digits { size := multBufferSize, cell := fun _ => 0 } ha.normal.lt_base
    hb.normal.lt_base (by omega) (by simp only [multBufferSize]; omega) (fun _ => le_refl 0)
    (by omega)
  refine ⟨sum, hrun, hsize, fun j => (hcells j).trans (by omega), ?_⟩
  rw [hwindow, window_of_zeros fun j _ => rfl, Nat.zero_add,
    show a.len + b.len - 0 - a.digits.length - b.digits.length = 0 by omega, pow_zero,
    Nat.mul_one]

theorem mulDigits_loop (junk : Nat → Nat) : ∃ t out, mulDigits junk a b =
        finishMul (if a.sign = b.sign then .positive else .negative)
          (a.getDecodeExp + b.getDecodeExp) t ∧
      MulInv out out (a.len + b.len) 0 t ∧
      window base out 0 (a.len + b.len) = digitsValue a.digits * digitsValue b.digits := by
  have hale := ha.len_le
  have hble := hb.len_le
  simp only [maxStoreLen] at hale hble
  have hsum : ∃ sum, mulRows (if b.len < a.len then a.digits else b.digits)
      (if b.len < a.len then b.digits else a.digits) 0
        { size := multBufferSize, cell := fun _ => 0 } = some sum ∧
      sum.size = multBufferSize ∧ (∀ j, sum.cell j ≤ 9 * maxProduct) ∧
      window base sum.cell 0 (a.len + b.len) = digitsValue a.digits * digitsValue b.digits := by
    split_ifs
    · rw [Nat.add_comm, Nat.mul_comm (digitsValue a.digits)]
      exact mulRows_product hb ha
    · exact mulRows_product ha hb
  obtain ⟨sum, hrows, hsize, hcells, hwindow⟩ := hsum
  have hres : ∃ res, (if a.len + b.len ≤ maxDecimalDigit then
      CheckedArray.store? { size := calcBufferSize, cell := junk } (a.len + b.len)
        (List.replicate (maxDecimalDigit - (a.len + b.len) + 1) 0)
      else some { size := calcBufferSize, cell := junk }) = some res ∧
      res.size = calcBufferSize := by
    split_ifs with hshort
    · rw [CheckedArray.store?_eq (by
        simp only [length_replicate, calcBufferSize, maxDecimalDigit] at hshort ⊢
        omega)]
      exact ⟨_, rfl, rfl⟩
    · exact ⟨_, rfl, rfl⟩
  obtain ⟨res, hstore, hressize⟩ := hres
  have hstart : MulInv sum.cell sum.cell (a.len + b.len) (a.len + b.len)
      { res := res, carry := 0, sumLen := { len := a.len + b.len, check := true } } := by
    refine ⟨hressize, fun j hj hjT => ?_, fun j hj hjT => ?_, Nat.zero_le _, ?_, ?_⟩
    · exact absurd hjT (Nat.not_lt.mpr hj)
    · exact absurd hjT (Nat.not_lt.mpr hj)
    · simp
    · exact SumLen.Trims.start _ _
  obtain ⟨t, out, hloop, ht⟩ := mulCarryLoop_spec hstart le_rfl
    (by rw [hsize, multBufferSize]; omega) hcells
  -- the product is shorter than all columns together, so no carry is left
  have hnone : t.carry = 0 ∧ window base out 0 (a.len + b.len) =
      digitsValue a.digits * digitsValue b.digits := by
    have htotal := ht.total
    rw [Nat.sub_zero, hwindow] at htotal
    have hbound : digitsValue a.digits * digitsValue b.digits < base ^ (a.len + b.len) := by
      rw [pow_add]
      exact Nat.mul_lt_mul'' (window_lt fun j _ => digitAt_lt ha.normal.lt_base _)
        (window_lt fun j _ => digitAt_lt hb.normal.lt_base _)
    have hzero : t.carry = 0 := by
      by_contra hne
      have := Nat.le_mul_of_pos_left (base ^ (a.len + b.len)) (Nat.pos_of_ne_zero hne)
      omega
    rw [hzero, Nat.zero_mul, Nat.add_zero] at htotal
    exact ⟨hzero, htotal⟩
  refine ⟨t, out, ?_, ?_, hnone.2⟩
  · simp only [mulDigits, hstore, bind_some, hrows, hloop]
  · refine { ht with total := ?_ }
    rw [hnone.1, Nat.zero_mul, Nat.add_zero]

theorem mul_leading (hlt : ∀ j, j < a.len + b.len → out j < base)
    (hwindow : window base out 0 (a.len + b.len) = digitsValue a.digits * digitsValue b.digits) :
    out 0 ≠ 0 ∨ out 1 ≠ 0 := by
  obtain ⟨i, hi⟩ : ∃ i, a.len = i + 1 := exists_eq_succ_of_ne_zero ha.len_pos.ne'
  obtain ⟨j, hj⟩ : ∃ j, b.len = j + 1 := exists_eq_succ_of_ne_zero hb.len_pos.ne'
  have halow : base ^ i ≤ digitsValue a.digits := by
    have hlead : base ^ i ≤ window base (digitAt a.digits) 0 (i + 1) :=
      pow_le_window ha.normal.head_ne
    rwa [← hi] at hlead
  have hblow : base ^ j ≤ digitsValue b.digits := by
    have hlead : base ^ j ≤ window base (digitAt b.digits) 0 (j + 1) :=
      pow_le_window hb.normal.head_ne
    rwa [← hj] at hlead
  rw [or_iff_not_imp_left]
  intro hzero
  have hmany : base ^ (i + j) ≤ window base out 1 (i + j + 1) := by
    have hlead : window base out 0 (1 + (i + j + 1)) = window base out (0 + 1) (i + j + 1) :=
      window_lead fun k hk => by
        obtain rfl : k = 0 := by omega
        simpa using hzero
    rw [← hlead, show 1 + (i + j + 1) = a.len + b.len by omega, hwindow, pow_add]
    exact Nat.mul_le_mul halow hblow
  exact head_ne_of_pow_le (fun k hk => hlt _ (by omega)) hmany

theorem mulDigits_exact (junk : Nat → Nat) :
    ReturnsExact ((mulDigits junk a b).bind roundAfterArithmetic) (a.value * b.value) := by
  obtain ⟨t, out, hrun, ht, hwindow⟩ := mulDigits_loop ha hb junk
  have hlt : ∀ j, j < a.len + b.len → out j < base := fun j => ht.digits j (Nat.zero_le j)
  have hstored : ∀ j, j < a.len + b.len → j ≤ maxDecimalDigit → t.res.cell j = out j :=
    fun j => ht.stored j (Nat.zero_le j)
  have hleading := mul_leading ha hb hlt hwindow
  have hapos := ha.len_pos
  have hbpos := hb.len_pos
  have halow := ha.exp_ge
  have hahigh := ha.exp_le
  have hblow := hb.exp_ge
  have hbhigh := hb.exp_le
  simp only [maxIntegerExp, maxDecimalExp] at halow hahigh hblow hbhigh
  have hsize := ht.size_eq
  rw [calcBufferSize] at hsize
  have hsign : a.value * b.value = signFactor (if a.sign = b.sign then .positive else .negative) *
        (a.magnitude * b.magnitude) := by
    rw [value, value]
    cases a.sign <;> cases b.sign <;> simp [signFactor]
  -- the first column that is not zero
  obtain ⟨off, hoff, hzeros, hfirst, hexp, hoffEq⟩ : ∃ off, off < 2 ∧
      (∀ j, j < off → out j = 0) ∧ out off ≠ 0 ∧
      (if out 0 ≠ 0 then a.getDecodeExp + b.getDecodeExp + 1
        else a.getDecodeExp + b.getDecodeExp) =
        a.getDecodeExp + b.getDecodeExp + 1 - (off : Int) ∧
      (if out 0 ≠ 0 then 0 else 1) = off := by
    by_cases hzero : out 0 = 0
    · refine ⟨1, by omega, ?_, hleading.resolve_left (not_not.mpr hzero), ?_, ?_⟩
      · intro j hj
        obtain rfl : j = 0 := by omega
        exact hzero
      · simp [hzero]
      · simp [hzero]
    · exact ⟨0, by omega, fun j hj => absurd hj (Nat.not_lt_zero j), hzero, by simp [hzero],
        by simp [hzero]⟩
  have hchecked : t.sumLen.check = false := by
    by_contra htrue
    exact hfirst ((ht.trims.checking (by simpa using htrue)).2 off (Nat.zero_le off) (by omega))
  obtain ⟨-, hshort, hlast, hbehind⟩ := ht.trims.settled hchecked
  have hlonger : off < t.sumLen.len := by
    by_contra hnot
    exact hfirst (hbehind off (by omega) (by omega))
  have hvalue : a.magnitude * b.magnitude =
      scaled base out (a.getDecodeExp + b.getDecodeExp + 1 - (off : Int)) off
        (t.sumLen.len - off) := by
    rw [mul_magnitude hwindow]
    have hfront : scaled base out (a.getDecodeExp + b.getDecodeExp + 1) 0
        (off + (a.len + b.len - off)) =
        scaled base out (a.getDecodeExp + b.getDecodeExp + 1 - (off : Int)) (0 + off)
          (a.len + b.len - off) :=
      scaled_lead fun j hj => by rw [Nat.zero_add]; exact hzeros j hj
    rw [Nat.add_sub_cancel' (by omega), Nat.zero_add] at hfront
    rw [hfront, show a.len + b.len - off =
      t.sumLen.len - off + (a.len + b.len - t.sumLen.len) by omega]
    apply scaled_trim base_pos
    intro j hj
    exact hbehind _ (by omega) (by omega)
  have hnormal : Normal (ByteMemory.segment out off (t.sumLen.len - off)) := by
    apply normal_segment (by omega) (fun j hj => hlt _ (by omega)) hfirst
    rwa [show off + (t.sumLen.len - off - 1) = t.sumLen.len - 1 by omega]
  have hfinish : mulDigits junk a b = some (calcDescAndAssign
      (if a.sign = b.sign then .positive else .negative)
      (a.getDecodeExp + b.getDecodeExp + 1 - (off : Int))
      (ByteMemory.segment out off (min (t.sumLen.len - off) maxDecimalDigit))) := by
    have hseg : ByteMemory.segment t.res.cell off (min (t.sumLen.len - off) maxDecimalDigit) =
        ByteMemory.segment out off (min (t.sumLen.len - off) maxDecimalDigit) := by
      apply ByteMemory.segment_congr
      intro j hj
      apply hstored <;> simp only [maxDecimalDigit] at hj ⊢ <;> omega
    rw [hrun, finishMul, CheckedArray.get?_eq (by omega), bind_some,
      hstored 0 (by omega) (Nat.zero_le _)]
    simp only [hexp, hoffEq]
    rw [CheckedArray.slice?_eq (by simp only [maxDecimalDigit]; omega), map_some, hseg]
  rw [hfinish, bind_some]
  apply ReturnsExact.of_assign hnormal
  · rw [hsign, hvalue, ByteMemory.length_segment, scaled_segment]
  · omega
  · omega
  rcases Nat.lt_or_ge maxDecimalDigit (t.sumLen.len - off) with hlong | hfits
  · refine Or.inr ⟨?_, ?_, ?_⟩
    · rw [ByteMemory.length_segment]
      simp only [maxDecimalDigit] at hlong
      omega
    · rw [Nat.min_eq_right hlong.le, ← ByteMemory.take_segment hlong.le]
      exact fun d hd => hnormal.lt_base d (mem_of_mem_take hd)
    · rw [Nat.min_eq_right hlong.le, ← ByteMemory.take_segment hlong.le, digitAt_take (by decide)]
      exact hnormal.head_ne
  · rw [Nat.min_eq_left hfits]
    exact Or.inl rfl

end

theorem mulV3_exact {a b : ObNumber} (junk : Nat → Nat) (ha : a.Canonical) (hb : b.Canonical) :
    ReturnsExact (mulV3 junk a b) (a.value * b.value) := by
  rcases ha with rfl | ha
  · rw [mulV3, zero_isZero, value_zero, zero_mul]
    exact ReturnsExact.of_zero rfl
  rcases hb with rfl | hb
  · rw [mulV3, zero_isZero, Bool.or_true, value_zero, mul_zero]
    exact ReturnsExact.of_zero rfl
  rw [mulV3, ha.isZero, hb.isZero]
  exact mulDigits_exact ha hb junk

/-- The three operations return every exact result of at most eight groups. -/
theorem arithmetic_exact (junk : Nat → Nat) {a b : ObNumber} (ha : a.Canonical) (hb : b.Canonical) :
    (WithinNine a b → ReturnsExact (addV3 a b) (a.value + b.value) ∧
      ReturnsExact (subV3 a b) (a.value - b.value)) ∧
    ReturnsExact (mulV3 junk a b) (a.value * b.value) :=
  ⟨fun hwithin => ⟨addV3_exact ha hb hwithin, subV3_exact ha hb hwithin⟩, mulV3_exact junk ha hb⟩

/-- The operations at `1.5` and `-2`. -/
theorem arithmetic_exact_three_halves :
    let a : ObNumber := { sign := .positive, exp := 64, digits := [1, 500000000] }
    let b : ObNumber := { sign := .negative, exp := 64, digits := [2] }
    ReturnsExact (addV3 a b) (a.value + b.value) ∧ ReturnsExact (subV3 a b) (a.value - b.value) ∧
      ReturnsExact (mulV3 (fun _ => 0) a b) (a.value * b.value) := by
  intro a b
  have ha : a.Canonical :=
    Or.inr ⟨⟨by decide, by decide, by decide⟩, by decide, by decide, by decide⟩
  have hb : b.Canonical :=
    Or.inr ⟨⟨by decide, by decide, by decide⟩, by decide, by decide, by decide⟩
  have hwithin : WithinNine a b := by
    refine ⟨0, ?_⟩
    rintro x (rfl | rfl) _ <;> decide
  have h := arithmetic_exact (fun _ => 0) ha hb
  exact ⟨(h.1 hwithin).1, (h.1 hwithin).2, h.2⟩

end SeekDB.ObNumber
