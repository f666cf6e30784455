/-
Addition and subtraction of numbers.  The digits of the larger operand are
copied into a buffer; the other operand is read by a cursor that is aligned by
exponents, from the least significant group on.
-/
import SeekDB.ObNumberResult

namespace SeekDB.ObNumber

open List Option Function Positional

variable {cell : Nat → Nat}

/-- `sum_len` and `check_sum_len`: zero groups at the end are not counted. -/
structure SumLen where
  len : Nat
  check : Bool
  deriving Repr, DecidableEq

def SumLen.see (s : SumLen) (isZero : Bool) : SumLen :=
  if s.check then
    if isZero then { s with len := s.len - 1 } else { s with check := false }
  else s

/-- The group of the smaller operand that is read next, with its exponent. -/
structure OperandCursor where
  exp : Int
  id : Int
  deriving Repr, DecidableEq

namespace OperandCursor

def aligned (c : OperandCursor) (curExp low : Int) : Bool := curExp == c.exp && low ≤ c.id

def digit? (c : OperandCursor) (digits : List Nat) (curExp low : Int) : Option Nat :=
  if c.aligned curExp low then digits[c.id.toNat]? else some 0

def next (c : OperandCursor) (curExp low : Int) : OperandCursor :=
  if c.aligned curExp low then { exp := c.exp + 1, id := c.id - 1 } else c

end OperandCursor

/-- Where both loops start: the exponent of the last group, the cursor and the
number of groups, of which the lowest are dropped behind the ninth. -/
def alignOperands (sumExp : Int) (larger smaller : ObNumber) : Int × OperandCursor × Nat :=
  let curLargerExp := sumExp - ((larger.len : Int) - 1)
  let curSmallerExp := smaller.getDecodeExp - ((smaller.len : Int) - 1)
  let curExp := min curLargerExp curSmallerExp
  let sumLen := ((sumExp - curExp + 1) % 256).toNat
  if maxDecimalDigit < sumLen then
    let movex : Int := sumLen - maxDecimalDigit
    (curExp + movex,
      { exp := curSmallerExp + movex, id := (smaller.len : Int) - 1 - movex }, maxDecimalDigit)
  else (curExp, { exp := curSmallerExp, id := (smaller.len : Int) - 1 }, sumLen)

/-- `sum_digits` after `MEMSET`. -/
def clearedBuffer {α : Type} (zero : α) : CheckedArray α :=
  { size := calcBufferSize, cell := fun _ => zero }

/-! ### Addition -/

structure AddState where
  sum : CheckedArray Nat
  carry : Nat
  curExp : Int
  cursor : OperandCursor
  sumLen : SumLen

def addRound (addendDigits : List Nat) (i : Nat) (s : AddState) : Option AddState := do
  let digit ← s.sum.get? i
  let digit ← unsigned 32 (digit + s.carry)
  let other ← s.cursor.digit? addendDigits s.curExp 0
  let digit ← unsigned 32 (digit + other)
  let carry := if base ≤ digit then 1 else 0
  let digit := if base ≤ digit then digit - base else digit
  let sum ← s.sum.set? i digit
  return { sum := sum
           carry := carry
           curExp := s.curExp + 1
           cursor := s.cursor.next s.curExp 0
           sumLen := s.sumLen.see (digit == 0) }

def addLoop (addendDigits : List Nat) : Nat → AddState → Option AddState
  | 0, s => some s
  | i + 1, s => (addRound addendDigits (i + 1) s).bind (addLoop addendDigits i)

/-- A carry out of the first position takes slot 0. -/
def finishAdd (sign : NumberSign) (sumExp : Int) (s : AddState) :
    Option (Except NumberRet ObNumber) :=
  if s.carry = 0 then
    (s.sum.slice? 1 s.sumLen.len).map (calcDescAndAssign sign sumExp)
  else
    (s.sum.set? 0 1).bind fun sum =>
      (sum.slice? 0 (s.sumLen.len + 1)).map (calcDescAndAssign sign (sumExp + 1))

/-- The sum of an augend and an addend of the same sign, the augend having the
larger exponent. -/
def addDigits (sign : NumberSign) (augend addend : ObNumber) :
    Option (Except NumberRet ObNumber) :=
  let sumExp := augend.getDecodeExp
  let aligned := alignOperands sumExp augend addend
  ((clearedBuffer 0).store? 1 (augend.digits.take maxDecimalDigit)).bind fun sum =>
    (addLoop addend.digits aligned.2.2
      { sum := sum
        carry := 0
        curExp := aligned.1
        cursor := aligned.2.1
        sumLen := { len := aligned.2.2, check := true } }).bind (finishAdd sign sumExp)

/-- The sum of two nonzero numbers of the same sign. -/
def addSameSign (x other : ObNumber) : Option (Except NumberRet ObNumber) :=
  let thisExp := x.getDecodeExp
  let otherExp := other.getDecodeExp
  if otherExp + maxDecimalDigit ≤ thisExp then some (deepCopyV3 x)
  else if thisExp + maxDecimalDigit ≤ otherExp then some (deepCopyV3 other)
  else if thisExp < otherExp ∨ thisExp = otherExp ∧ x.len < other.len then
    addDigits x.sign other x
  else addDigits x.sign x other

/-! ### Subtraction -/

structure SubState where
  sum : CheckedArray Int
  carry : Int
  curExp : Int
  cursor : OperandCursor
  sumLen : SumLen

def subRound (subtrahendDigits : List Nat) (startId i : Nat) (s : SubState) :
    Option SubState := do
  let digit ← s.sum.get? i
  let digit ← signed 32 (digit + s.carry)
  let other ← s.cursor.digit? subtrahendDigits s.curExp startId
  let digit ← signed 32 (digit - other)
  let carry := if digit < 0 then -1 else 0
  let digit := if digit < 0 then digit + base else digit
  let sum ← s.sum.set? i digit
  return { sum := sum
           carry := carry
           curExp := s.curExp + 1
           cursor := s.cursor.next s.curExp startId
           sumLen := s.sumLen.see (digit == 0) }

/-- The rounds from slot `startId + count - 1` down to `startId`. -/
def subLoop (subtrahendDigits : List Nat) (startId : Nat) : Nat → SubState → Option SubState
  | 0, s => some s
  | count + 1, s =>
    (subRound subtrahendDigits startId (startId + count) s).bind
      (subLoop subtrahendDigits startId count)

/-- The first slot from `id` on that is not zero, found by reading upwards. -/
def firstNonzero (sum : CheckedArray Int) : Nat → Nat → Option Nat
  | 0, _ => none
  | fuel + 1, id =>
    match sum.get? id with
    | none => none
    | some digit => if digit = 0 then firstNonzero sum fuel (id + 1) else some id

/-- The common leading groups of two numbers of the same exponent. -/
def commonPrefixLen : List Nat → List Nat → Nat
  | a :: as, b :: bs => if a = b then commonPrefixLen as bs + 1 else 0
  | _, _ => 0

/-- The end flag behind the last group stops the search for the first one. -/
def finishSub (sign : NumberSign) (sumExp : Int) (startId : Nat) (s : SubState) :
    Option (Except NumberRet ObNumber) :=
  (s.sum.set? s.sumLen.len base).bind fun sum =>
    (firstNonzero sum calcBufferSize startId).bind fun newStartId =>
      if s.sumLen.len ≤ newStartId then some (.ok zero)
      else
        (sum.slice? newStartId (s.sumLen.len - newStartId)).map fun digits =>
          calcDescAndAssign sign (sumExp - newStartId) (digits.map Int.toNat)

/-- The difference of a larger minuend and a subtrahend, both without regard to
their signs; the first `startId` groups are the same. -/
def subDigits (sign : NumberSign) (startId : Nat) (minuend subtrahend : ObNumber) :
    Option (Except NumberRet ObNumber) :=
  let sumExp := minuend.getDecodeExp
  let aligned := alignOperands sumExp minuend subtrahend
  ((clearedBuffer 0).store? startId
      ((minuend.digits.drop startId).map Int.ofNat)).bind fun sum =>
    (subLoop subtrahend.digits startId (aligned.2.2 - startId)
      { sum := sum
        carry := 0
        curExp := aligned.1
        cursor := aligned.2.1
        sumLen := { len := aligned.2.2, check := true } }).bind
          (finishSub sign sumExp startId)

/-- The sign of `x - other` for two numbers of one sign. -/
def subSign (x : NumberSign) (subNegative : Bool) : NumberSign :=
  if (x == .negative) == subNegative then .positive else .negative

/-- The difference of two nonzero numbers of the same sign. -/
def subSameSign (x other : ObNumber) : Option (Except NumberRet ObNumber) :=
  let thisExp := x.getDecodeExp
  let otherExp := other.getDecodeExp
  if otherExp + maxDecimalDigit ≤ thisExp then some (deepCopyV3 x)
  else if thisExp + maxDecimalDigit ≤ otherExp then some (.ok other.negate)
  else if otherExp < thisExp then subDigits (subSign x.sign false) 0 x other
  else if thisExp < otherExp then subDigits (subSign x.sign true) 0 other x
  else
    let startId := commonPrefixLen x.digits other.digits
    if startId = min x.len other.len then
      if x.len = other.len then some (.ok zero)
      else if x.len < other.len then subDigits (subSign x.sign true) startId other x
      else subDigits (subSign x.sign false) startId x other
    else if digitAt x.digits startId < digitAt other.digits startId then
      subDigits (subSign x.sign true) startId other x
    else subDigits (subSign x.sign false) startId x other

/-! ### The operations

Operands of different signs are handed to the other operation with the second
one negated; both are then nonzero and of one sign. -/

def addV3 (x other : ObNumber) : Option (Except NumberRet ObNumber) :=
  (if x.isZero then some (deepCopyV3 other)
    else if other.isZero then some (deepCopyV3 x)
    else if x.sign = other.sign then addSameSign x other
    else (subSameSign x other.negate).bind roundAfterArithmetic).bind roundAfterArithmetic

def subV3 (x other : ObNumber) : Option (Except NumberRet ObNumber) :=
  (if x.isZero then some (.ok other.negate)
    else if other.isZero then some (deepCopyV3 x)
    else if x.sign = other.sign then subSameSign x other
    else (addSameSign x other.negate).bind roundAfterArithmetic).bind roundAfterArithmetic

/-! ### The cursor and the trimmed length -/

section

variable {R : Type} [Zero R]

/-- The groups of a buffer from `p` on are seen: `len` stops behind the last one
that is not zero. -/
structure SumLen.Trims (s : SumLen) (g : Nat → R) (p n : Nat) : Prop where
  checking : s.check = true → s.len = p ∧ ∀ j, p ≤ j → j < n → g j = 0
  settled : s.check = false → p < s.len ∧ s.len ≤ n ∧ g (s.len - 1) ≠ 0 ∧
    ∀ j, s.len ≤ j → j < n → g j = 0

variable {s : SumLen} {g g' : Nat → R} {p n : Nat}

theorem SumLen.Trims.start (g : Nat → R) (n : Nat) :
    SumLen.Trims { len := n, check := true } g n n :=
  ⟨fun _ => ⟨rfl, fun j hj hjn => absurd hjn (Nat.not_lt.mpr hj)⟩, fun h => by cases h⟩

theorem SumLen.Trims.see {zero : Bool} (h : s.Trims g (p + 1) n) (hp : p < n)
    (hsame : ∀ j, p < j → g' j = g j) (hzero : zero = true ↔ g' p = 0) :
    (s.see zero).Trims g' p n := by
  rcases hcheck : s.check with _ | _
  · obtain ⟨hlow, hle, hne, hzeros⟩ := h.settled hcheck
    have hsee : s.see zero = s := by simp [SumLen.see, hcheck]
    rw [hsee]
    refine ⟨fun htrue => by simp [hcheck] at htrue, fun _ => ⟨by omega, hle, ?_, ?_⟩⟩
    · rwa [hsame _ (by omega)]
    · intro j hj hjn
      rw [hsame j (by omega)]
      exact hzeros j hj hjn
  obtain ⟨hlen, hzeros⟩ := h.checking hcheck
  cases zero with
  | true =>
    have hsee : s.see true = { s with len := s.len - 1 } := by
      simp [SumLen.see, hcheck]
    rw [hsee]
    refine ⟨fun _ => ⟨by simp [hlen], ?_⟩, fun hfalse => by simp [hcheck] at hfalse⟩
    intro j hj hjn
    rcases Nat.eq_or_lt_of_le hj with rfl | hlt
    · exact hzero.mp rfl
    · rw [hsame j hlt]
      exact hzeros j hlt hjn
  | false =>
    have hsee : s.see false = { s with check := false } := by
      simp [SumLen.see, hcheck]
    rw [hsee]
    refine ⟨fun htrue => (by cases htrue), fun _ => ?_⟩
    simp only [hlen, Nat.add_sub_cancel]
    refine ⟨Nat.lt_succ_self p, hp, fun hd => ?_, ?_⟩
    · exact Bool.false_ne_true (hzero.mpr hd)
    · intro j hj hjn
      rw [hsame j (by omega)]
      exact hzeros j hj hjn

end

/-- The cursor over groups with leading exponent `exp` when the loop stands at
`curExp`: groups below `low` are not read. -/
structure OperandCursor.At (c : OperandCursor) (len : Nat) (exp low curExp : Int) : Prop where
  id_eq : c.id = max (low - 1) (min (len - 1) (exp - curExp))
  exp_eq : c.exp = exp - c.id

section

variable {c : OperandCursor} {digits : List Nat} {exp low curExp : Int}

theorem OperandCursor.At.aligned_iff {len : Nat} (h : c.At len exp low curExp) :
    c.aligned curExp low = true ↔ low ≤ exp - curExp ∧ exp - curExp < len := by
  have hid := h.id_eq
  have hexp := h.exp_eq
  simp only [aligned, Bool.and_eq_true, beq_iff_eq, decide_eq_true_eq]
  omega

theorem OperandCursor.At.digit? (h : c.At digits.length exp low curExp) (hzero : 0 ≤ low) :
    c.digit? digits curExp low =
      some (if low ≤ exp - curExp then digitAt digits (exp - curExp).toNat else 0) := by
  have hid := h.id_eq
  have hiff := h.aligned_iff
  by_cases haligned : c.aligned curExp low = true
  · obtain ⟨hat, hless⟩ := hiff.mp haligned
    have heq : c.id = exp - curExp := by omega
    rw [OperandCursor.digit?, if_pos haligned, if_pos hat, heq]
    exact getElem?_eq_digitAt (by omega)
  rw [OperandCursor.digit?, if_neg haligned]
  split_ifs with hat
  · have hless : ¬ exp - curExp < digits.length := fun hless => haligned (hiff.mpr ⟨hat, hless⟩)
    rw [digitAt_of_le (by omega)]
  · rfl

theorem OperandCursor.At.next {len : Nat} (h : c.At len exp low curExp) (hlow : low ≤ len) :
    (c.next curExp low).At len exp low (curExp + 1) := by
  have hid := h.id_eq
  have hexp := h.exp_eq
  have hiff := h.aligned_iff
  by_cases haligned : c.aligned curExp low = true
  · have hbounds := hiff.mp haligned
    rw [OperandCursor.next, if_pos haligned]
    constructor <;> simp only <;> omega
  · have hbounds : ¬ (low ≤ exp - curExp ∧ exp - curExp < len) := fun hb => haligned (hiff.mpr hb)
    rw [OperandCursor.next, if_neg haligned]
    constructor <;> omega

end

/-- The groups of an operand that starts `gap` positions behind the other. -/
def shifted (gap : Nat) (digits : List Nat) (j : Nat) : Nat :=
  if gap ≤ j then digitAt digits (j - gap) else 0

theorem shifted_zero (digits : List Nat) : shifted 0 digits = digitAt digits := rfl

theorem shifted_lt {digits : List Nat} (hlt : ∀ d ∈ digits, d < base) (gap j : Nat) :
    shifted gap digits j < base := by
  unfold shifted
  split_ifs
  · exact digitAt_lt hlt _
  · exact base_pos

variable {top : Int}

theorem scaled_shifted {digits : List Nat} {gap n : Nat}
    (hn : gap + digits.length ≤ n) :
    scaled base (shifted gap digits) top 0 n =
      scaled base (digitAt digits) (top - gap) 0 digits.length := by
  obtain ⟨rest, rfl⟩ := Nat.exists_eq_add_of_le hn
  have htrim : ∀ j, j < rest → shifted gap digits (0 + (gap + digits.length) + j) = 0 := by
    intro j hj
    rw [shifted, if_pos (by omega), digitAt_of_le (by omega)]
  have hlead : ∀ j, j < gap → shifted gap digits (0 + j) = 0 := by
    intro j hj
    rw [shifted, if_neg (by omega)]
  rw [scaled_trim base_pos htrim, scaled_lead hlead, scaled, scaled]
  congr 2
  apply window_congr
  intro j hj
  rw [shifted, if_pos (by omega)]
  congr 1
  omega

section

variable {larger smaller : ObNumber} {gap n : Nat}

theorem alignOperands_eq (hgap : larger.getDecodeExp = smaller.getDecodeExp + gap)
    (hn : n = max larger.len (gap + smaller.len)) (hpos : 0 < n) (hle : n ≤ 9) :
    alignOperands larger.getDecodeExp larger smaller = (larger.getDecodeExp - ((n : Int) - 1),
        { exp := smaller.getDecodeExp - ((smaller.len : Int) - 1),
          id := (smaller.len : Int) - 1 }, n) := by
  have hexp : min (larger.getDecodeExp - ((larger.len : Int) - 1))
      (smaller.getDecodeExp - ((smaller.len : Int) - 1)) =
        larger.getDecodeExp - ((n : Int) - 1) := by
    omega
  have hlen : ((larger.getDecodeExp - (larger.getDecodeExp - ((n : Int) - 1)) + 1) %
      256).toNat = n := by
    omega
  have hnot : ¬ maxDecimalDigit < n := by
    simp only [maxDecimalDigit]
    omega
  simp only [alignOperands, hexp, hlen, if_neg hnot]

theorem OperandCursor.at_start {low : Int} (hgap : larger.getDecodeExp = smaller.getDecodeExp + gap)
    (hn : n = max larger.len (gap + smaller.len)) (hlow : low ≤ smaller.len) :
    OperandCursor.At { exp := smaller.getDecodeExp - ((smaller.len : Int) - 1),
                       id := (smaller.len : Int) - 1 }
      smaller.digits.length smaller.getDecodeExp low
      (larger.getDecodeExp - ((n : Int) - 1)) := by
  have hlen : smaller.digits.length = smaller.len := rfl
  constructor
  · simp only [hlen]
    omega
  · rfl

end

/-! ### The sum of the digits -/

/-- The groups from position `p` on are added up; position `j` stands in slot
`j + 1` of the buffer. -/
structure AddInv (top : Int) (augend : Nat → Nat) (addend : ObNumber) (gap n p : Nat)
    (s : AddState) : Prop where
  size_eq : s.sum.size = calcBufferSize
  before : ∀ j, j < p → s.sum.cell (j + 1) = augend j
  digits : ∀ j, p ≤ j → j < n → s.sum.cell (j + 1) < base
  carry_le : s.carry ≤ 1
  total : window base (fun j => s.sum.cell (j + 1)) p (n - p) + s.carry * base ^ (n - p) =
    window base (fun j => augend j + shifted gap addend.digits j) p (n - p)
  curExp_eq : s.curExp = top - ((p : Int) - 1)
  cursor : s.cursor.At addend.digits.length addend.getDecodeExp 0 s.curExp
  trims : s.sumLen.Trims (fun j => s.sum.cell (j + 1)) p n

theorem addRound_spec {augend : Nat → Nat} {addend : ObNumber} {gap n p : Nat}
    {s : AddState} (h : AddInv top augend addend gap n (p + 1) s) (hp : p < n) (hn : n ≤ 9)
    (hgap : top = addend.getDecodeExp + gap) (haugend : augend p < base)
    (haddend : ∀ d ∈ addend.digits, d < base) :
    ∃ t, addRound addend.digits (p + 1) s = some t ∧ AddInv top augend addend gap n p t := by
  have hsize : p + 1 < s.sum.size := by
    rw [h.size_eq, calcBufferSize]
    omega
  have hother : s.cursor.digit? addend.digits s.curExp 0 = some (shifted gap addend.digits p) := by
    rw [h.cursor.digit? le_rfl, shifted]
    have hcur := h.curExp_eq
    by_cases hat : gap ≤ p
    · rw [if_pos (by omega), if_pos hat]
      congr 2
      omega
    · rw [if_neg (by omega), if_neg hat]
  have hcell := h.before p (Nat.lt_succ_self p)
  have hshift := shifted_lt haddend gap p
  have hcarry := h.carry_le
  have hbase := base_eq
  generalize hdigit : augend p + s.carry + shifted gap addend.digits p = digit
  obtain ⟨written, hwritten⟩ : ∃ w, w = if base ≤ digit then digit - base else digit :=
    ⟨_, rfl⟩
  have hfirst : unsigned 32 (augend p + s.carry) = some (augend p + s.carry) :=
    unsigned_eq (by omega)
  have hsecond : unsigned 32 digit = some digit := unsigned_eq (by omega)
  have hround : addRound addend.digits (p + 1) s = some
      { sum := { s.sum with cell := Function.update s.sum.cell (p + 1) written }
        carry := if base ≤ digit then 1 else 0
        curExp := s.curExp + 1
        cursor := s.cursor.next s.curExp 0
        sumLen := s.sumLen.see (written == 0) } := by
    simp only [addRound, CheckedArray.get?_eq hsize, hcell, hother, bind_eq_bind,
      bind_some, hfirst, hdigit, hsecond, ← hwritten, CheckedArray.set?_eq hsize]
    rfl
  refine ⟨_, hround, ?_⟩
  have hlater : ∀ j, p < j → Function.update s.sum.cell (p + 1) written (j + 1) =
      s.sum.cell (j + 1) := fun j hj => update_of_ne (by omega) _ _
  have hearlier : ∀ j, j < p → Function.update s.sum.cell (p + 1) written (j + 1) =
      s.sum.cell (j + 1) := fun j hj => update_of_ne (by omega) _ _
  have hhere : Function.update s.sum.cell (p + 1) written (p + 1) = written :=
    update_self _ _ _
  have hsub : n - p = n - (p + 1) + 1 := by omega
  constructor
  · exact h.size_eq
  · intro j hj
    exact (hearlier j hj).trans (h.before j (Nat.lt_succ_of_lt hj))
  · intro j hj hjn
    rcases Nat.eq_or_lt_of_le hj with rfl | hlt
    · apply hhere.trans_lt
      rw [hwritten]
      split_ifs <;> omega
    · exact (hlater j hlt).trans_lt (h.digits j hlt hjn)
  · simp only
    split_ifs <;> omega
  · rw [hsub]
    apply window_carry (c := s.carry)
    · rw [← h.total]
      congr 1
      apply window_congr
      intro j hj
      exact hlater _ (by omega)
    · simp only [hhere]
      rw [hwritten]
      split_ifs <;> omega
  · have := h.curExp_eq
    simp only
    omega
  · exact h.cursor.next (Int.natCast_nonneg _)
  · apply h.trims.see hp hlater
    simp only [beq_iff_eq, hhere]

theorem addLoop_spec {augend : Nat → Nat} {addend : ObNumber} {gap n p : Nat}
    {s : AddState} (h : AddInv top augend addend gap n p s) (hp : p ≤ n) (hn : n ≤ 9)
    (hgap : top = addend.getDecodeExp + gap) (haugend : ∀ j, augend j < base)
    (haddend : ∀ d ∈ addend.digits, d < base) :
    ∃ t, addLoop addend.digits p s = some t ∧ AddInv top augend addend gap n 0 t := by
  induction p generalizing s with
  | zero => exact ⟨s, rfl, h⟩
  | succ p ih =>
    obtain ⟨t, hround, ht⟩ := addRound_spec h hp hn hgap (haugend p) haddend
    obtain ⟨u, hloop, hu⟩ := ih ht (Nat.le_of_lt hp)
    refine ⟨u, ?_, hu⟩
    rw [addLoop, hround, bind_some, hloop]

theorem normal_segment {lo m : Nat} (hm : 0 < m) (hlt : ∀ j, j < m → cell (lo + j) < base)
    (hhead : cell lo ≠ 0) (hlast : cell (lo + (m - 1)) ≠ 0) :
    Normal (ByteMemory.segment cell lo m) := by
  have hat : ∀ j, j < m → digitAt (ByteMemory.segment cell lo m) j = cell (lo + j) :=
    fun j hj => digitAt_of_getElem? (ByteMemory.getElem?_segment hj)
  refine ⟨?_, ?_, ?_⟩
  · intro d hd
    obtain ⟨j, hj, rfl⟩ := List.mem_map.mp hd
    exact hlt j (mem_range.mp hj)
  · rw [hat 0 hm]
    exact hhead
  · rw [ByteMemory.length_segment, hat _ (by omega)]
    exact hlast

theorem scaled_segment {lo m : Nat} {e : Int} :
    scaled base (digitAt (ByteMemory.segment cell lo m)) e 0 m = scaled base cell e lo m := by
  rw [scaled, scaled]
  congr 2
  apply window_congr
  intro j hj
  rw [Nat.zero_add, digitAt_of_getElem? (ByteMemory.getElem?_segment hj)]

/-- An operation whose buffer holds the groups of its exact result from slot `lo`
on, `m` of them up to the last one that is not zero. -/
theorem ReturnsExact.of_buffer {lo m n : Nat} {e : Int} {v : ℚ}
    {sign : NumberSign} (hm : 0 < m) (hmn : m ≤ n) (hlow : -63 ≤ e) (hhigh : e ≤ 63)
    (hlt : ∀ j, j < n → cell (lo + j) < base) (hhead : cell lo ≠ 0)
    (hlast : cell (lo + (m - 1)) ≠ 0) (hzeros : ∀ j, m ≤ j → j < n → cell (lo + j) = 0)
    (hv : v = signFactor sign * scaled base cell e lo n) :
    ReturnsExact (roundAfterArithmetic
      (calcDescAndAssign sign e (ByteMemory.segment cell lo m))) v := by
  have hnormal := normal_segment hm (fun j hj => hlt j (by omega)) hhead hlast
  apply ReturnsExact.of_assign hnormal _ hlow hhigh (Or.inl rfl)
  obtain ⟨rest, rfl⟩ := Nat.exists_eq_add_of_le hmn
  have htrim : scaled base cell e lo (m + rest) = scaled base cell e lo m := by
    apply scaled_trim base_pos
    intro j hj
    rw [Nat.add_assoc]
    exact hzeros (m + j) (by omega) (by omega)
  rw [hv, htrim, ByteMemory.length_segment, scaled_segment]

theorem magnitude_eq_scaled {x : ObNumber} {gap n : Nat}
    (hgap : top = x.getDecodeExp + gap) (hn : gap + x.len ≤ n) :
    x.magnitude = scaled base (shifted gap x.digits) top 0 n := by
  rw [scaled_shifted hn, magnitude, hgap, Int.add_sub_cancel]
  rfl

section

variable {augend addend : ObNumber} {gap n : Nat} (haugend : augend.Stored)
  (haddend : addend.Stored) (hgap : augend.getDecodeExp = addend.getDecodeExp + gap)
  (hn : n = max augend.len (gap + addend.len)) (hle : n ≤ 9)

include haugend haddend hgap hn hle

theorem addDigits_loop :
    ∃ t, (∀ sign, addDigits sign augend addend = finishAdd sign augend.getDecodeExp t) ∧
      AddInv augend.getDecodeExp (digitAt augend.digits) addend gap n 0 t := by
  have hlen : augend.len = augend.digits.length := rfl
  have hpos := haugend.normal.length_pos
  have htake : augend.digits.take maxDecimalDigit = augend.digits :=
    take_of_length_le (by simp only [maxDecimalDigit]; omega)
  have hstore : 1 + augend.digits.length ≤ (clearedBuffer 0).size := by
    simp only [clearedBuffer, calcBufferSize]
    omega
  have halign := alignOperands_eq hgap hn (by omega) hle
  generalize hsum : ByteMemory.store (clearedBuffer 0).cell 1 augend.digits = cell
  have hcell : ∀ j, cell (j + 1) = digitAt augend.digits j := by
    intro j
    rw [← hsum]
    simp [ByteMemory.store, digitAt, clearedBuffer]
  have hstart : AddInv augend.getDecodeExp (digitAt augend.digits) addend gap n n
      { sum := { size := calcBufferSize, cell := cell }
        carry := 0
        curExp := augend.getDecodeExp - ((n : Int) - 1)
        cursor := { exp := addend.getDecodeExp - ((addend.len : Int) - 1),
                    id := (addend.len : Int) - 1 }
        sumLen := { len := n, check := true } } := by
    refine ⟨rfl, fun j _ => hcell j, fun j hj hjn => ?_, Nat.zero_le 1, ?_, rfl, ?_, ?_⟩
    · exact absurd hjn (Nat.not_lt.mpr hj)
    · simp
    · exact OperandCursor.at_start hgap hn (Int.natCast_nonneg _)
    · exact SumLen.Trims.start _ n
  obtain ⟨t, hloop, ht⟩ := addLoop_spec hstart le_rfl hle hgap
    (fun j => digitAt_lt haugend.normal.lt_base j) haddend.normal.lt_base
  refine ⟨t, fun sign => ?_, ht⟩
  simp only [addDigits, htake, CheckedArray.store?_eq hstore, hsum, halign, bind_some]
  exact (congrArg (Option.bind · _) hloop).trans rfl

theorem addDigits_exact (sign : NumberSign) :
    ReturnsExact ((addDigits sign augend addend).bind roundAfterArithmetic)
      (signFactor sign * (augend.magnitude + addend.magnitude)) := by
  obtain ⟨t, hrun, ht⟩ := addDigits_loop haugend haddend hgap hn hle
  have hlen : augend.len = augend.digits.length := rfl
  have hpos := haugend.normal.length_pos
  have hlow := haugend.exp_ge
  have hhigh := haugend.exp_le
  simp only [maxIntegerExp, maxDecimalExp] at hlow hhigh
  have htotal := ht.total
  rw [Nat.sub_zero, window_add] at htotal
  have hcells : window base (fun j => t.sum.cell (j + 1)) 0 n = window base t.sum.cell 1 n :=
    window_congr fun j _ => by rw [Nat.zero_add, Nat.add_comm]
  rw [hcells] at htotal
  have hdigit : ∀ j, j < n → t.sum.cell (1 + j) < base := by
    intro j hj
    rw [Nat.add_comm]
    exact ht.digits j (Nat.zero_le j) hj
  -- both magnitudes over the same positions
  have hmagnitude : augend.magnitude + addend.magnitude =
      ((window base t.sum.cell 1 n + t.carry * base ^ n : Nat) : ℚ) *
        (base : ℚ) ^ (augend.getDecodeExp - n + 1) := by
    have hlarge : augend.magnitude =
        scaled base (shifted 0 augend.digits) augend.getDecodeExp 0 n :=
      magnitude_eq_scaled (Int.add_zero _).symm (by omega)
    rw [hlarge, magnitude_eq_scaled (n := n) hgap (by omega), htotal, scaled, scaled,
      shifted_zero]
    push_cast
    ring
  have hmany : base ^ (n - 1) ≤ window base t.sum.cell 1 n + t.carry * base ^ n := by
    rw [htotal]
    obtain ⟨k, rfl⟩ : ∃ k, n = k + 1 := ⟨n - 1, by omega⟩
    exact Nat.le_add_right_of_le (pow_le_window haugend.normal.head_ne)
  have hsize := ht.size_eq
  rw [calcBufferSize] at hsize
  obtain ⟨k, rfl⟩ : ∃ k, n = k + 1 := ⟨n - 1, by omega⟩
  rw [hrun sign, finishAdd]
  split_ifs with hcarry
  · rw [hcarry, Nat.zero_mul, Nat.add_zero] at hmagnitude hmany
    have hhead : t.sum.cell 1 ≠ 0 :=
      head_ne_of_pow_le
        (fun j hj => by rw [Nat.add_assoc]; exact hdigit (1 + j) (by omega)) hmany
    have hchecked : t.sumLen.check = false := by
      by_contra htrue
      exact hhead ((ht.trims.checking (by simpa using htrue)).2 0 le_rfl (Nat.succ_pos k))
    obtain ⟨hpositive, hshort, hlast, hzeros⟩ := ht.trims.settled hchecked
    rw [CheckedArray.slice?_eq (by omega)]
    apply ReturnsExact.of_buffer hpositive hshort (by omega) (by omega) hdigit hhead
    · rwa [Nat.add_comm]
    · intro j hj hjn
      rw [Nat.add_comm]
      exact hzeros j hj hjn
    · rw [hmagnitude, scaled]
  · have hone : t.carry = 1 := by
      have := ht.carry_le
      omega
    rw [hone, Nat.one_mul] at hmagnitude
    have hcell : ∀ j, Function.update t.sum.cell 0 1 (j + 1) = t.sum.cell (j + 1) :=
      fun j => update_of_ne (Nat.succ_ne_zero j) _ _
    have hlead : Function.update t.sum.cell 0 1 0 = 1 := update_self _ _ _
    have hbounds : t.sumLen.len ≤ k + 1 ∧ Function.update t.sum.cell 0 1 t.sumLen.len ≠ 0 ∧
        ∀ j, t.sumLen.len ≤ j → j < k + 1 → t.sum.cell (j + 1) = 0 := by
      rcases hcheck : t.sumLen.check with _ | _
      · obtain ⟨hpositive, hshort, hlast, hzeros⟩ := ht.trims.settled hcheck
        refine ⟨hshort, ?_, hzeros⟩
        obtain ⟨m, hm⟩ : ∃ m, t.sumLen.len = m + 1 := ⟨t.sumLen.len - 1, by omega⟩
        simpa [hm] using hlast
      obtain ⟨hzero, hzeros⟩ := ht.trims.checking hcheck
      refine ⟨by omega, ?_, by rwa [hzero]⟩
      rw [hzero, hlead]
      exact Nat.one_ne_zero
    obtain ⟨hshort, hlast, hzeros⟩ := hbounds
    rw [CheckedArray.set?_eq (by omega), bind_some,
      CheckedArray.slice?_eq (by simp only; omega)]
    simp only [map_some, bind_some]
    apply ReturnsExact.of_buffer (n := k + 2) (Nat.succ_pos _) (Nat.succ_le_succ hshort)
      (by omega) (by omega)
    · intro j hj
      rcases j with _ | j
      · exact one_lt_base
      · rw [Nat.zero_add, hcell]
        exact ht.digits j (Nat.zero_le j) (by omega)
    · exact Nat.one_ne_zero
    · rwa [Nat.zero_add, Nat.succ_sub_one]
    · intro j hj hjn
      obtain ⟨i, rfl⟩ : ∃ i, j = i + 1 := ⟨j - 1, by omega⟩
      rw [Nat.zero_add, hcell]
      exact hzeros i (by omega) (by omega)
    have hwindow : window base (Function.update t.sum.cell 0 1) 0 (k + 2) =
        window base t.sum.cell 1 (k + 1) + base ^ (k + 1) := by
      rw [window_succ, hlead, Nat.one_mul, Nat.zero_add, Nat.add_comm]
      congr 1
      apply window_congr
      intro j hj
      rw [Nat.add_comm 1 j, hcell]
    rw [hmagnitude, scaled, hwindow]
    congr 3
    push_cast
    ring

end

/-! ### The difference of the digits -/

/-- The groups from position `p` on are subtracted; those before `start` are the
same in both operands and are left out. -/
structure SubInv (top : Int) (minuend : Nat → Nat) (subtrahend : ObNumber)
    (gap start n p : Nat) (s : SubState) : Prop where
  size_eq : s.sum.size = calcBufferSize
  before : ∀ j, start ≤ j → j < p → s.sum.cell j = minuend j
  digits : ∀ j, p ≤ j → j < n → 0 ≤ s.sum.cell j ∧ s.sum.cell j < base
  carry_cases : s.carry = 0 ∨ s.carry = -1
  total : window (base : Int) s.sum.cell p (n - p) + s.carry * (base : Int) ^ (n - p) =
    window (base : Int) (fun j => (minuend j : Int) - shifted gap subtrahend.digits j) p (n - p)
  curExp_eq : s.curExp = top - ((p : Int) - 1)
  cursor : s.cursor.At subtrahend.digits.length subtrahend.getDecodeExp start s.curExp
  trims : s.sumLen.Trims s.sum.cell p n

section

variable {top : Int} {minuend : Nat → Nat} {subtrahend : ObNumber} {gap start n : Nat}
  (hn : n ≤ 9) (hgap : top = subtrahend.getDecodeExp + gap) (hstart : start = 0 ∨ gap = 0)
  (hlow : start ≤ subtrahend.digits.length) (hminuend : ∀ j, minuend j < base)
  (hsubtrahend : ∀ d ∈ subtrahend.digits, d < base)

include hn hgap hstart hlow hminuend hsubtrahend

theorem subRound_spec {p : Nat} {s : SubState}
    (h : SubInv top minuend subtrahend gap start n (p + 1) s) (hp : p < n) (hlower : start ≤ p) :
    ∃ t, subRound subtrahend.digits start p s = some t ∧
      SubInv top minuend subtrahend gap start n p t := by
  have hsize : p < s.sum.size := by
    rw [h.size_eq, calcBufferSize]
    omega
  have hother : s.cursor.digit? subtrahend.digits s.curExp start =
      some (shifted gap subtrahend.digits p) := by
    rw [h.cursor.digit? (Int.natCast_nonneg _), shifted]
    have hcur := h.curExp_eq
    by_cases hat : gap ≤ p
    · rw [if_pos (by omega), if_pos hat]
      congr 2
      omega
    · rw [if_neg (by omega), if_neg hat]
  have hcell : s.sum.cell p = minuend p := h.before p hlower (Nat.lt_succ_self p)
  have hmin := hminuend p
  have hshift := shifted_lt hsubtrahend gap p
  have hcarry := h.carry_cases
  have hbase := base_eq
  generalize hdigit : (minuend p : Int) + s.carry - shifted gap subtrahend.digits p = digit
  obtain ⟨written, hwritten⟩ : ∃ w : Int, w = if digit < 0 then digit + base else digit :=
    ⟨_, rfl⟩
  have hfirst : signed 32 ((minuend p : Int) + s.carry) = some ((minuend p : Int) + s.carry) :=
    signed_eq (by omega) (by omega)
  have hsecond : signed 32 digit = some digit := signed_eq (by omega) (by omega)
  have hround : subRound subtrahend.digits start p s = some
      { sum := { s.sum with cell := Function.update s.sum.cell p written }
        carry := if digit < 0 then -1 else 0
        curExp := s.curExp + 1
        cursor := s.cursor.next s.curExp start
        sumLen := s.sumLen.see (written == 0) } := by
    simp only [subRound, CheckedArray.get?_eq hsize, hcell, hother, bind_eq_bind,
      bind_some, hfirst, hdigit, hsecond, ← hwritten, CheckedArray.set?_eq hsize]
    rfl
  refine ⟨_, hround, ?_⟩
  have hother : ∀ j, j ≠ p → Function.update s.sum.cell p written j = s.sum.cell j :=
    fun j hj => update_of_ne hj _ _
  have hhere : Function.update s.sum.cell p written p = written := update_self _ _ _
  have hsub : n - p = n - (p + 1) + 1 := by omega
  constructor
  · exact h.size_eq
  · intro j hj hjp
    exact (hother j (by omega)).trans (h.before j hj (Nat.lt_succ_of_lt hjp))
  · intro j hj hjn
    rcases Nat.eq_or_lt_of_le hj with rfl | hlt
    · simp only [hhere]
      rw [hwritten]
      split_ifs <;> omega
    · simp only [hother j (Nat.ne_of_gt hlt)]
      exact h.digits j hlt hjn
  · split_ifs <;> simp
  · rw [hsub]
    apply window_carry (c := s.carry)
    · rw [← h.total]
      congr 1
      apply window_congr
      intro j hj
      exact hother _ (by omega)
    · simp only [hhere]
      rw [hwritten]
      split_ifs <;> omega
  · have := h.curExp_eq
    simp only
    omega
  · exact h.cursor.next (by omega)
  · apply h.trims.see hp (fun j hj => hother j (Nat.ne_of_gt hj))
    simp only [beq_iff_eq, hhere]

theorem subLoop_spec {count : Nat} {s : SubState}
    (h : SubInv top minuend subtrahend gap start n (start + count) s) (hcount : start + count ≤ n) :
    ∃ t, subLoop subtrahend.digits start count s = some t ∧
      SubInv top minuend subtrahend gap start n start t := by
  induction count generalizing s with
  | zero => exact ⟨s, rfl, h⟩
  | succ count ih =>
    obtain ⟨t, hround, ht⟩ := subRound_spec hn hgap hstart hlow hminuend hsubtrahend
      (p := start + count) h (by omega) (by omega)
    obtain ⟨u, hloop, hu⟩ := ih ht (by omega)
    refine ⟨u, ?_, hu⟩
    rw [subLoop, hround, bind_some, hloop]

end

/-- A positive difference leaves no borrow. -/
theorem SubInv.difference {top : Int} {minuend c : Nat → Nat} {subtrahend : ObNumber}
    {gap start n : Nat} {t : SubState} (h : SubInv top minuend subtrahend gap start n start t)
    (hcell : ∀ j, start ≤ j → j < n → t.sum.cell j = c j ∧ c j < base)
    (hgt : window base (shifted gap subtrahend.digits) start (n - start) <
      window base minuend start (n - start)) :
    window base c start (n - start) +
      window base (shifted gap subtrahend.digits) start (n - start) =
        window base minuend start (n - start) := by
  have htotal := h.total
  have hcells : window (base : Int) t.sum.cell start (n - start) =
      ((window base c start (n - start) : Nat) : Int) := by
    rw [← window_natCast]
    exact window_congr fun j hj => (hcell (start + j) (by omega) (by omega)).1
  rw [hcells, window_sub, window_natCast, window_natCast] at htotal
  have hbound : window base c start (n - start) < base ^ (n - start) :=
    window_lt fun j hj => (hcell (start + j) (by omega) (by omega)).2
  rcases h.carry_cases with hcarry | hcarry
  · rw [hcarry, zero_mul, add_zero] at htotal
    omega
  · rw [hcarry, neg_one_mul, ← Nat.cast_pow] at htotal
    omega

theorem firstNonzero_spec {sum : CheckedArray Int} {fuel id w : Nat} (hid : id ≤ w)
    (hsize : w < sum.size) (hfuel : w < id + fuel) (hne : sum.cell w ≠ 0) :
    ∃ z, firstNonzero sum fuel id = some z ∧ id ≤ z ∧ z ≤ w ∧ sum.cell z ≠ 0 ∧
      ∀ j, id ≤ j → j < z → sum.cell j = 0 := by
  induction fuel generalizing id with
  | zero => omega
  | succ fuel ih =>
    have hget : sum.get? id = some (sum.cell id) := CheckedArray.get?_eq (by omega)
    by_cases hzero : sum.cell id = 0
    · have hless : id < w := by
        rcases Nat.eq_or_lt_of_le hid with rfl | hless
        · exact absurd hzero hne
        · exact hless
      obtain ⟨z, hfind, hlow, hhigh, hnonzero, hzeros⟩ := ih hless (by omega)
      refine ⟨z, ?_, by omega, hhigh, hnonzero, ?_⟩
      · simp only [firstNonzero, hget, if_pos hzero, hfind]
      · intro j hj hjz
        rcases Nat.eq_or_lt_of_le hj with rfl | hlt
        · exact hzero
        · exact hzeros j hlt hjz
    · refine ⟨id, ?_, le_refl id, hid, hzero, ?_⟩
      · simp only [firstNonzero, hget, if_neg hzero]
      · intro j hj hjz
        omega

section

variable {minuend subtrahend : ObNumber} {gap start n : Nat} (hminuend : minuend.Stored)
  (hsubtrahend : subtrahend.Stored)
  (hgap : minuend.getDecodeExp = subtrahend.getDecodeExp + gap)
  (hn : n = max minuend.len (gap + subtrahend.len)) (hle : n ≤ 9)
  (hstart : start = 0 ∨ gap = 0) (hmin : start ≤ minuend.len) (hsub : start ≤ subtrahend.len)

include hminuend hsubtrahend hgap hn hle hstart hmin hsub

theorem subDigits_loop : ∃ t, (∀ sign, subDigits sign start minuend subtrahend =
        finishSub sign minuend.getDecodeExp start t) ∧
      SubInv minuend.getDecodeExp (digitAt minuend.digits) subtrahend gap start n start t := by
  have hlen : minuend.len = minuend.digits.length := rfl
  have hpos := hminuend.normal.length_pos
  have hstore : start + ((minuend.digits.drop start).map Int.ofNat).length ≤
      (clearedBuffer (0 : Int)).size := by
    simp only [clearedBuffer, calcBufferSize, length_map, length_drop]
    omega
  have halign := alignOperands_eq hgap hn (by omega) hle
  generalize hsum : ByteMemory.store (clearedBuffer (0 : Int)).cell start
    ((minuend.digits.drop start).map Int.ofNat) = cell
  have hcell : ∀ j, start ≤ j → cell j = (digitAt minuend.digits j : Int) := by
    intro j hj
    rw [← hsum]
    rcases hd : minuend.digits[j]? with _ | d
    all_goals
      simp [ByteMemory.store, digitAt, clearedBuffer, hj, Nat.add_sub_cancel' hj, hd]
  have hbegin : SubInv minuend.getDecodeExp (digitAt minuend.digits) subtrahend gap start n
      (start + (n - start))
      { sum := { size := calcBufferSize, cell := cell }
        carry := 0
        curExp := minuend.getDecodeExp - ((n : Int) - 1)
        cursor := { exp := subtrahend.getDecodeExp - ((subtrahend.len : Int) - 1),
                    id := (subtrahend.len : Int) - 1 }
        sumLen := { len := n, check := true } } := by
    rw [Nat.add_sub_cancel' (by omega)]
    refine ⟨rfl, fun j hj _ => hcell j hj, fun j hj hjn => ?_, Or.inl rfl, ?_, rfl, ?_, ?_⟩
    · exact absurd hjn (Nat.not_lt.mpr hj)
    · simp
    · exact OperandCursor.at_start hgap hn (by omega)
    · exact SumLen.Trims.start _ n
  obtain ⟨t, hloop, ht⟩ := subLoop_spec hle hgap hstart hsub
    (fun j => digitAt_lt hminuend.normal.lt_base j) hsubtrahend.normal.lt_base hbegin
    (by omega)
  refine ⟨t, fun sign => ?_, ht⟩
  simp only [subDigits, CheckedArray.store?_eq hstore, hsum, halign, bind_some]
  exact (congrArg (Option.bind · _) hloop).trans rfl

omit hminuend hsubtrahend hle hstart hmin hsub in
/-- Where the numbers agree before `start`, their difference is the difference of the rest. -/
theorem magnitude_sub {c : Nat → Nat} (hstartn : start ≤ n)
    (hcommon : ∀ j, j < start → digitAt minuend.digits j = shifted gap subtrahend.digits j)
    (hdifference : window base c start (n - start) +
      window base (shifted gap subtrahend.digits) start (n - start) =
        window base (digitAt minuend.digits) start (n - start)) :
    minuend.magnitude - subtrahend.magnitude =
      scaled base c (minuend.getDecodeExp - start) start (n - start) := by
  have hsplit : ∀ f, window base f 0 n =
      window base f 0 start * base ^ (n - start) + window base f start (n - start) := by
    intro f
    have := window_add_len base f 0 start (n - start)
    rwa [Nat.add_sub_cancel' hstartn, Nat.zero_add] at this
  have hsame : window base (digitAt minuend.digits) 0 start =
      window base (shifted gap subtrahend.digits) 0 start := by
    apply window_congr
    intro j hj
    rw [Nat.zero_add, hcommon j hj]
  have hunit : minuend.getDecodeExp - start - ((n - start : Nat) : Int) + 1 =
      minuend.getDecodeExp - n + 1 := by omega
  have hlarge : minuend.magnitude =
      scaled base (shifted 0 minuend.digits) minuend.getDecodeExp 0 n :=
    magnitude_eq_scaled (Int.add_zero _).symm (by omega)
  rw [hlarge, magnitude_eq_scaled (n := n) hgap (by omega), scaled, scaled, scaled,
    shifted_zero, hunit, hsplit, hsplit, hsame, ← hdifference]
  push_cast
  ring

variable (hcommon : ∀ j, j < start → digitAt minuend.digits j = shifted gap subtrahend.digits j)
  (hgt : window base (shifted gap subtrahend.digits) start (n - start) <
    window base (digitAt minuend.digits) start (n - start))

include hcommon hgt

theorem subDigits_exact (sign : NumberSign) :
    ReturnsExact ((subDigits sign start minuend subtrahend).bind roundAfterArithmetic)
      (signFactor sign * (minuend.magnitude - subtrahend.magnitude)) := by
  obtain ⟨t, hrun, ht⟩ :=
    subDigits_loop hminuend hsubtrahend hgap hn hle hstart hmin hsub
  have hlow := hminuend.exp_ge
  have hhigh := hminuend.exp_le
  simp only [maxIntegerExp, maxDecimalExp] at hlow hhigh
  have hsize := ht.size_eq
  rw [calcBufferSize] at hsize
  obtain ⟨c, hc⟩ : ∃ c : Nat → Nat, ∀ j, c j = (t.sum.cell j).toNat := ⟨_, fun _ => rfl⟩
  have hcell : ∀ j, start ≤ j → j < n → t.sum.cell j = c j ∧ c j < base := by
    intro j hj hjn
    have := ht.digits j hj hjn
    rw [hc j]
    omega
  have hdifference := ht.difference hcell hgt
  have hchecked : t.sumLen.check = false := by
    by_contra htrue
    obtain ⟨-, hzeros⟩ := ht.trims.checking (by simpa using htrue)
    have hnone : window base c start (n - start) = 0 := by
      apply window_of_zeros
      intro j hj
      rw [hc, hzeros (start + j) (by omega) (by omega)]
      rfl
    omega
  obtain ⟨hlonger, hshort, hlast, hzeros⟩ := ht.trims.settled hchecked
  have hflag : ∀ j, j < t.sumLen.len →
      Function.update t.sum.cell t.sumLen.len (base : Int) j = t.sum.cell j :=
    fun j hj => update_of_ne (Nat.ne_of_lt hj) _ _
  obtain ⟨z, hfind, hzlow, hzhigh, hznonzero, hzbefore⟩ := @firstNonzero_spec
    { t.sum with cell := Function.update t.sum.cell t.sumLen.len (base : Int) }
    calcBufferSize start (t.sumLen.len - 1) (by omega)
    (by simp only; omega) (by simp only [calcBufferSize]; omega)
    (by simp only [hflag _ (by omega : t.sumLen.len - 1 < t.sumLen.len)]; exact hlast)
  have hdigits : (ByteMemory.segment
      (Function.update t.sum.cell t.sumLen.len (base : Int)) z (t.sumLen.len - z)).map
        Int.toNat = ByteMemory.segment c z (t.sumLen.len - z) := by
    rw [ByteMemory.segment, List.map_map]
    apply map_congr_left
    intro j hj
    have hless := mem_range.mp hj
    simp only [Function.comp, hflag (z + j) (by omega), hc]
  have hrest : subDigits sign start minuend subtrahend =
      some (calcDescAndAssign sign (minuend.getDecodeExp - z)
        (ByteMemory.segment c z (t.sumLen.len - z))) := by
    rw [hrun sign, finishSub, CheckedArray.set?_eq (by omega), bind_some, hfind,
      bind_some, if_neg (by omega), CheckedArray.slice?_eq (by simp only; omega)]
    simp only [map_some, hdigits]
  have hmagnitude : minuend.magnitude - subtrahend.magnitude =
      scaled base c (minuend.getDecodeExp - z) z (n - z) := by
    have hsplit : n - start = (z - start) + (n - z) := by omega
    have hexp : minuend.getDecodeExp - start - ((z - start : Nat) : Int) =
        minuend.getDecodeExp - z := by omega
    rw [magnitude_sub hgap hn (by omega) hcommon hdifference, hsplit, scaled_lead, hexp,
      Nat.add_sub_cancel' hzlow]
    intro j hj
    rw [hc]
    have := hzbefore (start + j) (by omega) (by omega)
    simp only [hflag (start + j) (by omega)] at this
    rw [this]
    rfl
  rw [hrest, bind_some]
  apply ReturnsExact.of_buffer (n := n - z) (by omega) (by omega) (by omega) (by omega)
  · intro j hj
    exact (hcell (z + j) (by omega) (by omega)).2
  · intro hzero
    apply hznonzero
    simp only [hflag z (by omega)]
    rw [(hcell z (by omega) (by omega)).1, hzero]
    rfl
  · intro hzero
    apply hlast
    rw [show z + (t.sumLen.len - z - 1) = t.sumLen.len - 1 by omega] at hzero
    rw [(hcell (t.sumLen.len - 1) (by omega) (by omega)).1, hzero]
    rfl
  · intro j hj hjn
    rw [hc, hzeros (z + j) (by omega) (by omega)]
    rfl
  · rw [hmagnitude]

end

/-! ### Operands within nine exponents -/

/-- The groups of both numbers lie within nine consecutive exponents. -/
def WithinNine (a b : ObNumber) : Prop :=
  ∃ top : Int, ∀ x, x = a ∨ x = b → x.digits ≠ [] →
    x.getDecodeExp ≤ top ∧ top - 9 < x.getDecodeExp - ((x.len : Int) - 1)

variable {a b : ObNumber}

theorem WithinNine.symm (h : WithinNine a b) : WithinNine b a := by
  obtain ⟨top, htop⟩ := h
  exact ⟨top, fun x hx => htop x hx.symm⟩

theorem WithinNine.spans (h : WithinNine a b) (ha : a.Stored) (hb : b.Stored) :
    a.len ≤ 9 ∧ a.getDecodeExp + b.len ≤ b.getDecodeExp + 9 := by
  obtain ⟨top, htop⟩ := h
  have hane := ne_nil_of_length_pos ha.normal.length_pos
  have hbne := ne_nil_of_length_pos hb.normal.length_pos
  have hatop := htop a (Or.inl rfl) hane
  have hbtop := htop b (Or.inr rfl) hbne
  omega

theorem WithinNine.positions {gap : Nat} (h : WithinNine a b)
    (ha : a.Stored) (hb : b.Stored) (hgap : a.getDecodeExp = b.getDecodeExp + gap) :
    max a.len (gap + b.len) ≤ 9 := by
  have hspans := h.spans ha hb
  omega

theorem WithinNine.near (h : WithinNine a b) (ha : a.Stored) (hb : b.Stored) : a.getDecodeExp <
    b.getDecodeExp + maxDecimalDigit := by
  have hspans := h.spans ha hb
  have hlen : 0 < b.len := hb.normal.length_pos
  simp only [maxDecimalDigit]
  omega

theorem WithinNine.negate (h : WithinNine a b) (hb : b.Stored) :
    WithinNine a b.negate := by
  obtain ⟨top, htop⟩ := h
  refine ⟨top, fun x hx hne => ?_⟩
  rcases hx with rfl | rfl
  · exact htop x (Or.inl rfl) hne
  have hbne := ne_nil_of_length_pos hb.normal.length_pos
  have hlen : b.negate.len = b.len := by rw [len, hb.negate_eq]; rfl
  rw [hb.getDecodeExp_negate, hlen]
  exact htop b (Or.inr rfl) hbne

section

variable {a b : ObNumber} (ha : a.Stored) (hb : b.Stored) (hwithin : WithinNine a b)

include ha hb hwithin

theorem addSameSign_exact : ReturnsExact ((addSameSign a b).bind roundAfterArithmetic)
      (signFactor a.sign * (a.magnitude + b.magnitude)) := by
  have hnear := hwithin.near ha hb
  have hnear' := hwithin.symm.near hb ha
  rw [addSameSign, if_neg (by omega), if_neg (by omega)]
  split_ifs with hswap
  · obtain ⟨gap, hgap⟩ : ∃ gap : Nat, b.getDecodeExp = a.getDecodeExp + gap :=
      ⟨(b.getDecodeExp - a.getDecodeExp).toNat, by omega⟩
    rw [add_comm a.magnitude]
    exact addDigits_exact hb ha hgap rfl (hwithin.symm.positions hb ha hgap) a.sign
  · obtain ⟨gap, hgap⟩ : ∃ gap : Nat, a.getDecodeExp = b.getDecodeExp + gap :=
      ⟨(a.getDecodeExp - b.getDecodeExp).toNat, by omega⟩
    exact addDigits_exact ha hb hgap rfl (hwithin.positions ha hb hgap) a.sign

theorem subDigits_of_exp_lt (hlt : b.getDecodeExp < a.getDecodeExp) (sign : NumberSign) :
    ReturnsExact ((subDigits sign 0 a b).bind roundAfterArithmetic)
      (signFactor sign * (a.magnitude - b.magnitude)) := by
  obtain ⟨gap, hgap⟩ : ∃ gap : Nat, a.getDecodeExp = b.getDecodeExp + gap :=
    ⟨(a.getDecodeExp - b.getDecodeExp).toNat, by omega⟩
  have hpositions := hwithin.positions ha hb hgap
  obtain ⟨k, hk⟩ : ∃ k, max a.len (gap + b.len) = k + 1 :=
    ⟨max a.len (gap + b.len) - 1, by omega⟩
  refine subDigits_exact ha hb hgap hk.symm (hk ▸ hpositions) (Or.inl rfl) (Nat.zero_le _)
    (Nat.zero_le _) (fun j hj => absurd hj (Nat.not_lt_zero j)) ?_ sign
  apply window_lt_window
  · intro j _
    exact shifted_lt hb.normal.lt_base gap _
  · rw [shifted, if_neg (by omega)]
    exact Nat.pos_of_ne_zero ha.normal.head_ne

/-- A minuend of the same exponent that is larger from group `start` on. -/
theorem subDigits_of_exp_eq {start : Nat} (heq : a.getDecodeExp = b.getDecodeExp)
    (hastart : start ≤ a.len) (hbstart : start ≤ b.len)
    (hcommon : ∀ j, j < start → digitAt a.digits j = digitAt b.digits j)
    (hgt : window base (digitAt b.digits) start (max a.len b.len - start) <
      window base (digitAt a.digits) start (max a.len b.len - start)) (sign : NumberSign) :
    ReturnsExact ((subDigits sign start a b).bind roundAfterArithmetic)
      (signFactor sign * (a.magnitude - b.magnitude)) := by
  have hgap : a.getDecodeExp = b.getDecodeExp + (0 : Nat) := by omega
  have hpositions := hwithin.positions ha hb hgap
  have hn : max a.len b.len = max a.len (0 + b.len) := by rw [Nat.zero_add]
  exact subDigits_exact ha hb hgap hn (hn ▸ hpositions) (Or.inr rfl) hastart hbstart
    hcommon hgt sign

end

theorem commonPrefixLen_spec (a b : List Nat) :
    commonPrefixLen a b ≤ a.length ∧ commonPrefixLen a b ≤ b.length ∧
      (∀ j, j < commonPrefixLen a b → digitAt a j = digitAt b j) ∧
      (commonPrefixLen a b < a.length → commonPrefixLen a b < b.length →
        digitAt a (commonPrefixLen a b) ≠ digitAt b (commonPrefixLen a b)) := by
  induction a generalizing b with
  | nil => simp [commonPrefixLen]
  | cons d ds ih =>
    cases b with
    | nil => simp [commonPrefixLen]
    | cons c cs =>
      by_cases hdc : d = c
      · obtain ⟨hds, hcs, hcommon, hdiffer⟩ := ih cs
        simp only [commonPrefixLen, if_pos hdc, length_cons]
        refine ⟨by omega, by omega, ?_, ?_⟩
        · intro j hj
          rcases j with _ | j
          · exact hdc
          · exact hcommon j (by omega)
        · intro hd hc
          exact hdiffer (by omega) (by omega)
      · simp [commonPrefixLen, hdc]

theorem signFactor_subSign (sign : NumberSign) (v : ℚ) :
    signFactor (subSign sign true) * v = signFactor sign * -v ∧
      signFactor (subSign sign false) * v = signFactor sign * v := by
  cases sign <;> simp [subSign, signFactor]

theorem window_lt_of_longer {a b : List Nat} (ha : Normal a) (hlonger : b.length < a.length) :
    window base (digitAt b) b.length (max a.length b.length - b.length) <
      window base (digitAt a) b.length (max a.length b.length - b.length) := by
  have hnone : window base (digitAt b) b.length (max a.length b.length - b.length) = 0 :=
    window_of_zeros fun j _ => digitAt_of_le (Nat.le_add_right _ _)
  rw [hnone]
  apply window_pos (j := a.length - 1 - b.length) base_pos (by omega)
  rw [Nat.add_sub_cancel' (by omega)]
  exact ha.last_ne

theorem window_lt_of_digit {a b : List Nat} {start : Nat} (hb : ∀ d ∈ b, d < base)
    (hstart : start < max a.length b.length) (hlt : digitAt b start < digitAt a start) :
    window base (digitAt b) start (max a.length b.length - start) <
      window base (digitAt a) start (max a.length b.length - start) := by
  obtain ⟨k, hk⟩ : ∃ k, max a.length b.length - start = k + 1 :=
    ⟨max a.length b.length - start - 1, by omega⟩
  rw [hk]
  exact window_lt_window (fun j _ => digitAt_lt hb _) hlt

theorem subSameSign_exact (ha : a.Stored) (hb : b.Stored)
    (hwithin : WithinNine a b) :
    ReturnsExact ((subSameSign a b).bind roundAfterArithmetic)
      (signFactor a.sign * (a.magnitude - b.magnitude)) := by
  have hnear := hwithin.near ha hb
  have hnear' := hwithin.symm.near hb ha
  have hforward := (signFactor_subSign a.sign (a.magnitude - b.magnitude)).2
  have hbackward := (signFactor_subSign a.sign (b.magnitude - a.magnitude)).1
  rw [neg_sub] at hbackward
  rw [subSameSign, if_neg (by omega), if_neg (by omega)]
  by_cases hgreater : b.getDecodeExp < a.getDecodeExp
  · rw [if_pos hgreater]
    exact hforward ▸ subDigits_of_exp_lt ha hb hwithin hgreater _
  rw [if_neg hgreater]
  by_cases hless : a.getDecodeExp < b.getDecodeExp
  · rw [if_pos hless]
    exact hbackward ▸ subDigits_of_exp_lt hb ha hwithin.symm hless _
  rw [if_neg hless]
  have heq : a.getDecodeExp = b.getDecodeExp := by omega
  obtain ⟨hastart, hbstart, hcommon, hdiffer⟩ := commonPrefixLen_spec a.digits b.digits
  generalize commonPrefixLen a.digits b.digits = start at *
  have hcommon' : ∀ j, j < start → digitAt b.digits j = digitAt a.digits j :=
    fun j hj => (hcommon j hj).symm
  have halen : a.len = a.digits.length := rfl
  have hblen : b.len = b.digits.length := rfl
  by_cases hall : start = min a.len b.len
  · rw [if_pos hall]
    rcases Nat.lt_trichotomy a.len b.len with hshort | hsame | hlong
    · have hstart : start = a.digits.length := by omega
      subst hstart
      rw [if_neg (by omega), if_pos hshort]
      rw [← hbackward]
      apply subDigits_of_exp_eq hb ha hwithin.symm heq.symm hbstart hastart hcommon'
      exact window_lt_of_longer hb.normal hshort
    · have hdigits : a.digits = b.digits := by
        apply ext_getElem? fun j => ?_
        rcases Nat.lt_or_ge j a.digits.length with hj | hj
        · rw [getElem?_eq_digitAt hj, getElem?_eq_digitAt (by omega), hcommon j (by omega)]
        · rw [List.getElem?_eq_none hj, List.getElem?_eq_none (by omega)]
      rw [if_pos hsame]
      apply ReturnsExact.of_zero
      rw [magnitude, magnitude, heq, hsame, hdigits, sub_self, mul_zero]
    · have hstart : start = b.digits.length := by omega
      subst hstart
      rw [if_neg (by omega), if_neg (by omega)]
      rw [← hforward]
      apply subDigits_of_exp_eq ha hb hwithin heq hastart hbstart hcommon
      exact window_lt_of_longer ha.normal hlong
  · rw [if_neg hall]
    split_ifs with hdigit
    · rw [← hbackward]
      apply subDigits_of_exp_eq hb ha hwithin.symm heq.symm hbstart hastart hcommon'
      exact window_lt_of_digit ha.normal.lt_base (by omega) hdigit
    · rw [← hforward]
      apply subDigits_of_exp_eq ha hb hwithin heq hastart hbstart hcommon
      exact window_lt_of_digit hb.normal.lt_base (by omega) (by omega)

section

variable {a b : ObNumber}

theorem zero_isZero : zero.isZero = true := rfl

theorem ReturnsExact.of_canonical {x : ObNumber} (h : x.Canonical) :
    ReturnsExact ((some (deepCopyV3 x)).bind roundAfterArithmetic) x.value := by
  rcases h with rfl | h
  · exact ReturnsExact.of_zero value_zero
  · rw [h.deepCopyV3_eq]
    exact ReturnsExact.of_stored h

theorem flip_eq_of_ne {s t : NumberSign} (h : s ≠ t) : flip t = s := by
  cases s <;> cases t <;> simp_all [flip]

theorem Stored.signed_negate (hb : b.Stored) (hsign : a.sign ≠ b.sign) :
    signFactor a.sign * b.negate.magnitude = -b.value := by
  have hneg : b.negate.sign = a.sign := by
    rw [hb.negate_eq]
    exact flip_eq_of_ne hsign
  rw [← hneg, ← value, hb.value_negate]

theorem addV3_exact (ha : a.Canonical) (hb : b.Canonical) (hwithin : WithinNine a b) :
    ReturnsExact (addV3 a b) (a.value + b.value) := by
  rcases ha with rfl | ha
  · rw [addV3, if_pos zero_isZero, value_zero, zero_add]
    exact ReturnsExact.of_canonical hb
  rcases hb with rfl | hb
  · rw [addV3, ha.isZero, if_neg Bool.false_ne_true, if_pos zero_isZero, value_zero, add_zero]
    exact ReturnsExact.of_canonical (Or.inr ha)
  rw [addV3, ha.isZero, hb.isZero, if_neg Bool.false_ne_true, if_neg Bool.false_ne_true]
  split_ifs with hsign
  · rw [value, value, ← hsign, ← mul_add]
    exact addSameSign_exact ha hb hwithin
  · have h := (subSameSign_exact ha hb.negate (hwithin.negate hb)).round
    rwa [mul_sub, ← value, hb.signed_negate hsign, sub_neg_eq_add] at h

theorem subV3_exact (ha : a.Canonical) (hb : b.Canonical) (hwithin : WithinNine a b) :
    ReturnsExact (subV3 a b) (a.value - b.value) := by
  rcases ha with rfl | ha
  · rw [subV3, if_pos zero_isZero, value_zero, zero_sub]
    rcases hb with rfl | hb
    · exact ReturnsExact.of_zero (by rw [value_zero, neg_zero])
    · rw [← hb.value_negate]
      exact ReturnsExact.of_stored hb.negate
  rcases hb with rfl | hb
  · rw [subV3, ha.isZero, if_neg Bool.false_ne_true, if_pos zero_isZero, value_zero, sub_zero]
    exact ReturnsExact.of_canonical (Or.inr ha)
  rw [subV3, ha.isZero, hb.isZero, if_neg Bool.false_ne_true, if_neg Bool.false_ne_true]
  split_ifs with hsign
  · rw [value, value, ← hsign, ← mul_sub]
    exact subSameSign_exact ha hb hwithin
  · have h := (addSameSign_exact ha hb.negate (hwithin.negate hb)).round
    rwa [mul_add, ← value, hb.signed_negate hsign, ← sub_eq_add_neg] at h

end

end SeekDB.ObNumber
