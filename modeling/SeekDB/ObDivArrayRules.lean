/-
What the operations on digit arrays compute: products, differences and sums of
the numbers that the arrays hold, within the buffers and within 64 bits.
-/
import SeekDB.ObDivArray

namespace SeekDB.ObDivArray

open Option Function Limbs LongDivision

variable {x : ObDivArray} {v : Int}

theorem base_pos : 0 < base := by decide

theorem signed64_eq {x : Int} (hlow : -(4 * base * base) ≤ x) (hhigh : x ≤ 4 * base * base) :
    signed 64 x = some x := by
  simp only [base] at hlow hhigh
  exact signed_eq (by norm_num; omega) (by norm_num; omega)

/-- `x` holds the number `v`. -/
structure Holds (x : ObDivArray) (v : Int) : Prop where
  size_eq : x.digits.size = remBufferSize
  digits : Digits base x.digits.cell 0 x.len
  value : limbs base x.digits.cell 0 x.len = v

theorem Holds.lt (h : x.Holds v) : v < base ^ x.len :=
  h.value ▸ h.digits.limbs_lt base_pos.le

theorem Holds.cell (h : x.Holds v) {i : Nat} (hi : i < x.len) :
    0 ≤ x.digits.cell i ∧ x.digits.cell i < base := by
  have := h.digits i hi
  rwa [Nat.zero_add] at this

/-! ### Carries -/

theorem carryUp_eq {x : Int} (hx : 0 ≤ x) : carryUp x = x / base := by
  rw [carryUp]
  split_ifs with hbase
  · exact Int.tdiv_eq_ediv_of_nonneg hx
  · rw [Int.ediv_eq_zero_of_lt hx (not_le.mp hbase)]

theorem borrowOne_eq {x : Int} (hlow : -base ≤ x) (hhigh : x < base) : borrowOne x = x / base := by
  simp only [borrowOne, base] at *
  split_ifs <;> omega

theorem borrowMany_eq {x : Int} (hx : x < base) : borrowMany x = x / base := by
  rw [borrowMany]
  by_cases hneg : x < 0
  · have hdiv : (x + 1).tdiv base = -(-(x + 1) / base) := by
      rw [← Int.tdiv_eq_ediv_of_nonneg (by omega), Int.neg_tdiv, neg_neg]
    rw [hdiv]
    simp only [base]
    omega
  · rw [if_neg (by omega), Int.ediv_eq_zero_of_lt (by omega) hx]

theorem sub_ediv_nonneg (x : Int) : 0 ≤ x - x / base * base ∧ x - x / base * base < base := by
  simp only [base]
  omega

theorem pushCarry_spec {c : ObDivArray} {carry : Int} (hsize : c.digits.size = remBufferSize)
    (hdigits : Digits base c.digits.cell 0 c.len) (hlow : 0 ≤ carry) (hhigh : carry < base)
    (hlen : c.len < remBufferSize)
    (hvalue : limbs base c.digits.cell 0 c.len + carry * base ^ c.len = v) :
    ∃ x, pushCarry (remBufferSize + 1) c carry = some x ∧ x.Holds v ∧
      (x.len = c.len ∨ x.len = c.len + 1 ∧ base ^ c.len ≤ v) ∧
      ∀ p, x.len ≤ p → x.digits.cell p = c.digits.cell p := by
  by_cases hzero : carry = 0
  · refine ⟨c, by rw [pushCarry, if_pos hzero], ⟨hsize, hdigits, ?_⟩, Or.inl rfl,
      fun _ _ => rfl⟩
    rw [← hvalue, hzero, zero_mul, add_zero]
  have htdiv : carry.tdiv base = 0 := by
    rw [Int.tdiv_eq_ediv_of_nonneg hlow, Int.ediv_eq_zero_of_lt hlow hhigh]
  have hset := CheckedArray.set?_eq (hsize ▸ hlen : c.len < c.digits.size) carry
  refine ⟨⟨c.len + 1, ⟨c.digits.size, Function.update c.digits.cell c.len carry⟩⟩, ?_,
    ⟨hsize, ?_, ?_⟩, Or.inr ⟨rfl, ?_⟩, ?_⟩
  · rw [pushCarry, if_neg hzero, htdiv, zero_mul, sub_zero, hset]
    rfl
  · apply Digits.append
    · apply hdigits.congr
      intro i hi
      exact update_of_ne (by omega) _ _
    · intro i hi
      obtain rfl : i = 0 := by omega
      simp only [Nat.zero_add, Nat.add_zero, update_self]
      exact ⟨hlow, hhigh⟩
  · rw [← hvalue, limbs_succ]
    simp only [Nat.zero_add, update_self]
    congr 1
    apply limbs_congr
    intro i hi
    exact update_of_ne (by omega) _ _
  · have hpow := mul_le_mul_of_nonneg_right (by omega : 1 ≤ carry)
      (pow_nonneg base_pos.le c.len)
    have := hdigits.limbs_nonneg base_pos.le
    linarith
  · intro p hp
    exact update_of_ne (Nat.ne_of_gt hp) _ _

/-! ### Products -/

theorem mul_spec {len : Nat} {read : CheckedArray Int → CheckedArray Int} {factor : Int}
    {dst : CheckedArray Int} {src : Nat → Int} (hfactor : 0 ≤ factor) (hle : factor ≤ base)
    (hsrc : Digits base src 0 len) (hlen : len < remBufferSize) (hdst : dst.size = remBufferSize)
    (hread : ∀ now p, now.size = dst.size → (∀ p', p ≤ p' → now.cell p' = dst.cell p') →
      p < len → (read now).get? p = some (src p)) :
    ∃ x, mul len read factor dst = some x ∧ x.Holds (limbs base src 0 len * factor) ∧
      (x.len = len ∨ x.len = len + 1 ∧ base ^ len ≤ limbs base src 0 len * factor) ∧
      ∀ p, x.len ≤ p → x.digits.cell p = dst.cell p := by
  have hstep : ∀ p, 0 ≤ p → p < 0 + len → CarryStep base (mulTerm read factor) carryUp
      (fun i => src i * factor) (fun c => 0 ≤ c ∧ c ≤ factor) dst p := by
    intro p _ hp now carry hnow hcells hcarry
    rw [Nat.zero_add] at hp
    obtain ⟨hlow, hhigh⟩ := hsrc p hp
    rw [Nat.zero_add] at hlow hhigh
    have hprod : 0 ≤ src p * factor := mul_nonneg hlow hfactor
    have hprodle : src p * factor ≤ (base - 1) * factor :=
      mul_le_mul_of_nonneg_right (by omega) hfactor
    have hbound : (base - 1) * factor ≤ (base - 1) * base :=
      mul_le_mul_of_nonneg_left hle (by decide)
    have hsplit := sub_ediv_nonneg (src p * factor + carry)
    simp only
    rw [carryUp_eq (by omega)]
    refine ⟨?_, hsplit.1, hsplit.2, Int.ediv_nonneg (by omega) base_pos.le, ?_⟩
    · simp only [base] at hbound hprodle hle
      simp only [mulTerm, hread now p hnow hcells hp, bind_some]
      rw [signed64_eq (by simp only [base]; omega) (by simp only [base]; omega),
        bind_some,
        signed64_eq (by simp only [base]; omega) (by simp only [base]; omega)]
    · apply Int.ediv_le_of_le_mul base_pos
      linarith [hcarry.2]
  obtain ⟨digits, carry, hloop, hcarry, ⟨hsize, hcells⟩, hdigits, hvalue⟩ :=
    carryLoop_spec hstep (by omega) ⟨le_refl 0, hfactor⟩
  rw [limbs_mul, add_zero] at hvalue
  have hless : carry < base := by
    rcases eq_or_lt_of_le hfactor with hzero | hpos
    · have := base_pos
      omega
    have hlt : carry * base ^ len < factor * base ^ len := by
      have hfront := hdigits.limbs_nonneg base_pos.le
      have hsmall := mul_lt_mul_of_pos_right (hsrc.limbs_lt base_pos.le) hpos
      linarith
    exact (lt_of_mul_lt_mul_right hlt (pow_nonneg base_pos.le len)).trans_le hle
  obtain ⟨x, hpush, hholds, hxlen, hxcells⟩ := pushCarry_spec (c := ⟨len, digits⟩)
    (hsize.trans hdst) hdigits hcarry.1 hless hlen hvalue
  refine ⟨x, ?_, hholds, hxlen, ?_⟩
  · simp only [mul, hloop, hpush]
  intro p hp
  rw [hxcells p hp]
  apply hcells
  right
  rcases hxlen with hxlen | ⟨hxlen, -⟩ <;> simp only [hxlen] at hp <;> omega

theorem Holds.mulInPlace {factor : Int} (h : x.Holds v)
    (hfactor : 0 ≤ factor) (hle : factor ≤ base) (hlen : x.len < remBufferSize) :
    ∃ y, mul x.len id factor x.digits = some y ∧ y.Holds (v * factor) ∧
      (y.len = x.len ∨ y.len = x.len + 1 ∧ base ^ x.len ≤ v * factor) ∧
      ∀ p, y.len ≤ p → y.digits.cell p = x.digits.cell p := by
  rw [← h.value]
  apply mul_spec hfactor hle h.digits hlen h.size_eq
  intro now p hnow hcells hp
  have hsize := h.size_eq
  rw [id, CheckedArray.get?_eq (by omega), hcells p le_rfl]

theorem Holds.mulTo {x : ObDivArray} {v factor : Int} (junk : Nat → Int) (h : x.Holds v)
    (hfactor : 0 ≤ factor) (hle : factor ≤ base) (hlen : x.len < remBufferSize) :
    ∃ y, mul x.len (fun _ => x.digits) factor (fresh junk) = some y ∧ y.Holds (v * factor) ∧
      (y.len = x.len ∨ y.len = x.len + 1) := by
  have hmul : ∃ y, mul x.len (fun _ => x.digits) factor (fresh junk) = some y ∧
      y.Holds (limbs base x.digits.cell 0 x.len * factor) ∧
      (y.len = x.len ∨ y.len = x.len + 1 ∧
        base ^ x.len ≤ limbs base x.digits.cell 0 x.len * factor) ∧
      ∀ p, y.len ≤ p → y.digits.cell p = (fresh junk).cell p := by
    apply mul_spec hfactor hle h.digits hlen rfl
    intro now p _ _ hp
    have hsize := h.size_eq
    exact CheckedArray.get?_eq (by omega)
  rw [h.value] at hmul
  obtain ⟨y, hy, hholds, hylen, -⟩ := hmul
  exact ⟨y, hy, hholds, hylen.imp_right And.left⟩

/-! ### Differences and sums -/

/-- A digit of a number, zero from its length on. -/
def place (x : ObDivArray) (i : Nat) : Int := if i < x.len then x.digits.cell i else 0

theorem Holds.operandDigit_eq (h : x.Holds v) (hlen : x.len ≤ remBufferSize) (i : Nat) :
    operandDigit x i = some (x.place i) := by
  have hsize := h.size_eq
  rw [operandDigit, place]
  split_ifs with hi
  · exact CheckedArray.get?_eq (by omega)
  · rfl

theorem Holds.place_bounds (h : x.Holds v) (i : Nat) :
    0 ≤ x.place i ∧ x.place i < base := by
  rw [place]
  split_ifs with hi
  · exact h.cell hi
  · exact ⟨le_refl 0, base_pos⟩

theorem Holds.limbs_place (h : x.Holds v) {k : Nat} (hk : x.len ≤ k) : limbs base x.place 0 k =
    v := by
  obtain ⟨extra, rfl⟩ := Nat.exists_eq_add_of_le hk
  have hzeros : limbs base x.place (0 + x.len) extra = 0 := by
    apply limbs_of_zeros
    intro i _
    rw [place, if_neg (by omega)]
  rw [limbs_add_len, hzeros, zero_mul, add_zero, ← h.value]
  apply limbs_congr
  intro i hi
  rw [Nat.zero_add, place, if_pos hi]

/-- Subtraction leaves the difference, or its complement with a digit `-1` on top. -/
theorem sub_spec {a b : ObDivArray} {u w : Int} {n : Nat} (junk : Nat → Int) (ha : a.Holds u)
    (hb : b.Holds w) (halen : a.len = n) (hblen : b.len ≤ n) (hn : n < remBufferSize) :
    (w ≤ u ∧ ∃ c, sub a b (fresh junk) = some c ∧ c.len = n ∧ c.Holds (u - w)) ∨
      u < w ∧ ∃ c, sub a b (fresh junk) = some c ∧ c.len = n + 1 ∧
        c.digits.size = remBufferSize ∧ Digits base c.digits.cell 0 n ∧
        c.digits.cell n = -1 ∧ limbs base c.digits.cell 0 n = u - w + base ^ n := by
  have hmax : max a.len b.len = n := by omega
  have hstep : ∀ p, 0 ≤ p → p < 0 + n → CarryStep base (subTerm a b) borrowOne
      (fun i => a.place i - b.place i) (fun c => -1 ≤ c ∧ c ≤ 0) (fresh junk) p := by
    intro p _ _ now borrow _ _ hborrow
    obtain ⟨halow, hahigh⟩ := ha.place_bounds p
    obtain ⟨hblow, hbhigh⟩ := hb.place_bounds p
    have hsplit := sub_ediv_nonneg (a.place p - b.place p + borrow)
    simp only
    rw [borrowOne_eq (by omega) (by omega)]
    refine ⟨?_, hsplit.1, hsplit.2, ?_⟩
    · simp only [subTerm, ha.operandDigit_eq (by omega), hb.operandDigit_eq (by omega),
        bind_some]
      simp only [base] at hahigh hbhigh
      rw [signed64_eq (by simp only [base]; omega) (by simp only [base]; omega)]
      congr 1
      ring
    · simp only [base] at hahigh hbhigh ⊢
      omega
  obtain ⟨digits, borrow, hloop, hborrow, ⟨hsize, -⟩, hdigits, hvalue⟩ :=
    carryLoop_spec hstep ((Nat.zero_add n).trans_le hn.le) ⟨by decide, le_refl 0⟩
  rw [limbs_sub, ha.limbs_place halen.le, hb.limbs_place hblen, add_zero] at hvalue
  have hlow := hdigits.limbs_nonneg base_pos.le
  have hhigh := hdigits.limbs_lt base_pos.le
  have hcases : borrow = 0 ∨ borrow = -1 := by omega
  rcases hcases with rfl | rfl
  · rw [zero_mul, add_zero] at hvalue
    refine Or.inl ⟨by omega, ⟨n, digits⟩, ?_, rfl, hsize, hdigits, hvalue⟩
    simp [sub, hmax, hloop]
  have hset := CheckedArray.set?_eq (hsize ▸ hn : n < digits.size) (-1 : Int)
  have hbelow : ∀ i, i < n → Function.update digits.cell n (-1) (0 + i) = digits.cell (0 + i) :=
    fun i hi => update_of_ne (by omega) _ _
  refine Or.inr ⟨by linarith, ⟨n + 1, ⟨digits.size, Function.update digits.cell n (-1)⟩⟩, ?_,
    rfl, hsize, hdigits.congr hbelow, update_self n _ _, ?_⟩
  · simp [sub, hmax, hloop, hset]
  · rw [limbs_congr hbelow]
    linarith

theorem isNeg_of_digits {digits : CheckedArray Int} {k : Nat} (hk : k ≤ digits.size)
    (hdigits : Digits base digits.cell 0 k) : isNeg digits k = some false := by
  induction k with
  | zero => rfl
  | succ k ih =>
    have hlow := (hdigits k (Nat.lt_succ_self k)).1
    rw [Nat.zero_add] at hlow
    rw [isNeg, CheckedArray.get?_eq hk]
    simp only
    split_ifs with hzero
    · exact ih (Nat.le_of_succ_le hk) fun i hi => hdigits i (Nat.lt_succ_of_lt hi)
    · simp [hlow]

theorem addBack_spec {c b : ObDivArray} {w r : Int} {n : Nat} (hb : b.Holds v)
    (hblen : b.len ≤ n) (hclen : c.len = n + 1) (hsize : c.digits.size = remBufferSize)
    (hn : n + 1 ≤ remBufferSize) (hdigits : Digits base c.digits.cell 0 n)
    (htop : c.digits.cell n = -1) (hw : limbs base c.digits.cell 0 n = w)
    (hsum : w + v = r + base ^ n) (hr : 0 ≤ r) (hrlt : r < base ^ n) :
    ∃ x, addInPlace c b = some x ∧ x.len = n + 1 ∧ x.Holds r ∧ x.digits.cell n = 0 := by
  have hmax : max c.len b.len = n + 1 := by omega
  have hstep : ∀ p, 0 ≤ p → p < 0 + n → CarryStep base (addTerm c.len b) carryUp
      (fun i => c.digits.cell i + b.place i) (fun c => 0 ≤ c ∧ c ≤ 1) c.digits p := by
    intro p _ hp now carry hnow hcells hcarry
    rw [Nat.zero_add] at hp
    obtain ⟨hclow, hchigh⟩ := hdigits p hp
    obtain ⟨hblow, hbhigh⟩ := hb.place_bounds p
    rw [Nat.zero_add] at hclow hchigh
    have hsplit := sub_ediv_nonneg (c.digits.cell p + b.place p + carry)
    simp only
    rw [carryUp_eq (by omega)]
    refine ⟨?_, hsplit.1, hsplit.2, ?_⟩
    · simp only [addTerm, operandDigit, if_pos (by omega : p < c.len),
        CheckedArray.get?_eq (by omega : p < now.size), hcells p le_rfl]
      have hother := hb.operandDigit_eq (by omega) p
      simp only [operandDigit] at hother
      simp only [bind_some, hother]
      simp only [base] at hchigh hbhigh
      rw [signed64_eq (by simp only [base]; omega) (by simp only [base]; omega)]
      congr 1
      ring
    · simp only [base] at hchigh hbhigh ⊢
      omega
  obtain ⟨digits, carry, hloop, hcarry, ⟨hsize', hcells'⟩, hdigits', hvalue⟩ :=
    carryLoop_spec hstep (by omega) ⟨le_refl 0, by decide⟩
  rw [limbs_add, hw, hb.limbs_place hblen, add_zero, hsum] at hvalue
  obtain ⟨hrest, rfl⟩ := eq_of_add_mul (hdigits'.limbs_nonneg base_pos.le)
    (hdigits'.limbs_lt base_pos.le) hr hrlt (hvalue.trans (by rw [one_mul] : r + base ^ n =
      r + 1 * base ^ n))
  have htop' : digits.cell n = -1 := by rw [hcells' n (by omega), htop]
  have hlast : carryLoop base (addTerm c.len b) carryUp 1 (0 + n) digits 1 =
      some (⟨digits.size, Function.update digits.cell n 0⟩, 0) := by
    have hnsize : n < digits.size := by omega
    have hself : operandDigit ⟨c.len, digits⟩ n = some (-1) := by
      rw [operandDigit, if_pos (by omega : n < c.len), CheckedArray.get?_eq hnsize, htop']
    have hother : operandDigit b n = some 0 := by
      rw [hb.operandDigit_eq (by omega) n, place, if_neg (by omega)]
    have hterm : addTerm c.len b digits n 1 = some 0 := by
      rw [addTerm, hself, hother]
      rfl
    rw [Nat.zero_add, carryLoop_one hterm (by omega)]
    rfl
  have hbelow : ∀ i, i < n → Function.update digits.cell n 0 (0 + i) = digits.cell (0 + i) :=
    fun i hi => update_of_ne (by omega) _ _
  refine ⟨⟨n + 1, ⟨digits.size, Function.update digits.cell n 0⟩⟩, ?_, rfl,
    ⟨hsize'.trans hsize, ?_, ?_⟩, update_self n _ _⟩
  · have hwhole : carryLoop base (addTerm c.len b) carryUp (n + 1) 0 c.digits 0 =
        some (⟨digits.size, Function.update digits.cell n 0⟩, 0) := by
      rw [carryLoop_snoc, hloop, bind_some, hlast]
    simp only [addInPlace, hmax, hwhole]
    rw [pushCarry, if_pos rfl]
  · apply Digits.append (hdigits'.congr hbelow)
    intro i hi
    obtain rfl : i = 0 := by omega
    simp only [Nat.zero_add, Nat.add_zero, update_self]
    exact ⟨le_refl 0, base_pos⟩
  · rw [limbs_succ, limbs_congr hbelow, hrest]
    simp

end SeekDB.ObDivArray
