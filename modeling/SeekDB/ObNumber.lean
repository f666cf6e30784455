/-
Decimal numbers: digit groups below `10^9`, most significant first, with a
sign and a biased exponent packed into seven bits.  Shared parts of the
operations: exponents, comparison, negation and the rounding of results.
-/
import SeekDB.Positional
import SeekDB.CheckedArray

namespace SeekDB

inductive NumberRet where
  | invalidArgument
  | integerPrecisionOverflow
  | decimalPrecisionOverflow
  | errorOutOfRange
  | divisionByZero
  deriving Repr, DecidableEq

inductive NumberSign where
  | negative
  | positive
  deriving Repr, DecidableEq

/-- A number with its descriptor: `exp` is the raw field `exp_`, the length is
that of the digit array. -/
@[ext]
structure ObNumber where
  sign : NumberSign
  exp : Nat
  digits : List Nat
  deriving Repr, DecidableEq

variable {x : ObNumber} {j : Nat}

namespace ObNumber

def base : Nat := 1000000000
def digitWidth : Nat := 9
def maxStoreLen : Nat := 9
def maxCalcLen : Nat := 32
def floatingScale : Int := 72
def maxIntegerExp : Nat := 14
def maxDecimalExp : Nat := 15
def expZero : Nat := 64
def calcBufferSize : Nat := 10
def maxDecimalDigit : Nat := 9
def minRoundDigitCount : Nat := 8

def len (x : ObNumber) : Nat := x.digits.length

def isZero (x : ObNumber) : Bool := x.len == 0

def zero : ObNumber := { sign := .positive, exp := 0, digits := [] }

/-- `set_one` keeps the sign. -/
def one (sign : NumberSign) : ObNumber := { sign := sign, exp := expZero, digits := [1] }

/-- The seven bits of `exp_` after complement and increment. -/
def complementExp (exp : Nat) : Nat := (127 - exp + 1) % 128

def getDecodeExp (x : ObNumber) : Int :=
  match x.sign with
  | .positive => (x.exp : Int) - expZero
  | .negative => (expZero : Int) - x.exp

/-- An exponent packed into `exp_`. -/
def encodeExp (sign : NumberSign) (exp : Int) : Nat :=
  let biased := ((expZero + exp) % 128).toNat
  match sign with
  | .positive => biased
  | .negative => complementExp biased

def isLt1 (sign : NumberSign) (exp : Nat) : Bool :=
  (sign == .negative && expZero < exp) || (sign == .positive && 0 < exp && exp < expZero)

def isGe1 (sign : NumberSign) (exp : Nat) : Bool :=
  (sign == .negative && exp ≤ expZero) || (sign == .positive && expZero ≤ exp)

def expCheck (sign : NumberSign) (exp : Nat) : Option NumberRet :=
  let distance := ((exp : Int) - expZero).natAbs
  if isGe1 sign exp && maxIntegerExp < distance then some .integerPrecisionOverflow
  else if maxDecimalExp < distance && isLt1 sign exp then some .decimalPrecisionOverflow
  else none

/-- `calc_desc_and_check` followed by the assignment of the digits: a number
too small for the format becomes zero, one too large is refused. -/
def calcDescAndAssign (sign : NumberSign) (exp : Int) (digits : List Nat) :
    Except NumberRet ObNumber :=
  let packed := encodeExp sign exp
  match expCheck sign packed with
  | none => .ok { sign := sign, exp := packed, digits := digits }
  | some .decimalPrecisionOverflow => .ok zero
  | some ret => .error ret

def flip : NumberSign → NumberSign
  | .negative => .positive
  | .positive => .negative

def negate (x : ObNumber) : ObNumber :=
  if x.isZero then zero
  else { sign := flip x.sign, exp := complementExp x.exp, digits := x.digits }

def deepCopyV3 (other : ObNumber) : Except NumberRet ObNumber :=
  if other.len = 0 then .ok zero
  else if maxCalcLen < other.len then .error .errorOutOfRange
  else .ok other

/-- The first difference of the common digits decides. -/
def uint32cmp : List Nat → List Nat → Ordering
  | a :: as, b :: bs => (compare a b).then (uint32cmp as bs)
  | _, _ => .eq

/-- The byte `se_`: the sign above the exponent. -/
def signExp (x : ObNumber) : Nat :=
  match x.sign with
  | .negative => x.exp
  | .positive => 128 + x.exp

def compare (x other : ObNumber) : Ordering :=
  if x.signExp = other.signExp then
    let magnitude := (uint32cmp x.digits other.digits).then (Ord.compare x.len other.len)
    if x.sign = .negative then magnitude.swap else magnitude
  else Ord.compare x.signExp other.signExp

/-- `ob_fast_digits10` of a digit group. -/
def getDigitLenV2 (d : Nat) : Nat :=
  if base ≤ d then 0
  else if d < 10 then 1
  else if d < 100 then 2
  else if d < 1000 then 3
  else if d < 10000 then 4
  else if d < 100000 then 5
  else if d < 1000000 then 6
  else if d < 10000000 then 7
  else if d < 100000000 then 8
  else 9

def roundPows : List Nat :=
  [1000000000, 100000000, 10000000, 1000000, 100000, 10000, 1000, 100, 10, 1000000000]

/-- What `round_scale_v3_` decides before it touches a digit. -/
inductive RoundPlan where
  | keep
  | toZero
  | toOne
  | at (len digitId powId : Int)
  deriving Repr, DecidableEq

/-- The choice by the sign of the scale that is left of the integer digits. -/
def planScale (len exprValue integerLength validIntegerLength validDecimalLength
    decimalLength scale : Int) (firstDigit : Nat) : RoundPlan :=
  if 0 < scale then
    let roundLength := scale / digitWidth
    if decimalLength ≤ roundLength then .keep
    else if validDecimalLength < decimalLength ∧
        roundLength < decimalLength - validDecimalLength then .toZero
    else
      let cut := len - (decimalLength - (roundLength + 1))
      .at cut (cut - 1) (scale - roundLength * digitWidth)
  else if scale < 0 then
    let scale := 0 - scale
    let roundLength := scale / digitWidth
    let round := scale - roundLength * digitWidth
    let roundIntegerLength := roundLength + (if round = 0 then 0 else 1)
    if integerLength < roundIntegerLength then .toZero
    else if validIntegerLength < integerLength ∧
        roundIntegerLength ≤ integerLength - validIntegerLength then .keep
    else
      let cut := integerLength - roundIntegerLength + 1
      .at cut (cut - 1) (9 - round)
  else if decimalLength = 0 then .keep
  else if 0 < validIntegerLength then .at validIntegerLength validIntegerLength 0
  else if base / 2 ≤ firstDigit ∧ exprValue = -1 then .toOne
  else .toZero

/-- The place at which a nonzero number is rounded, with the length it is cut to. -/
def roundPlan (x : ObNumber) (firstDigit : Nat) (scale : Int) (usingFloatingScale : Bool) :
    RoundPlan :=
  let len : Int := x.len
  let exprValue := x.getDecodeExp
  let integerLength := if 0 ≤ exprValue then exprValue + 1 else 0
  let validIntegerLength := if integerLength < len then integerLength else len
  let integerCount :=
    if 0 < validIntegerLength then
      (getDigitLenV2 firstDigit : Int) + (integerLength - 1) * digitWidth
    else 0
  let validDecimalLength := if integerLength < len then len - integerLength else 0
  let decimalLength := validDecimalLength +
    (if integerLength = 0 ∧ usingFloatingScale = false then 0 - exprValue - 1 else 0)
  let scale :=
    if usingFloatingScale = true ∧ 0 < validIntegerLength then scale - integerCount else scale
  planScale len exprValue integerLength validIntegerLength validDecimalLength decimalLength
    scale firstDigit

/-- The length left when the zero groups at the end of the first `n` are dropped. -/
def trimmedLen (digits : List Nat) : Nat → Option Nat
  | 0 => some 0
  | n + 1 =>
    match digits[n]? with
    | none => none
    | some 0 => trimmedLen digits n
    | some (_ + 1) => some (n + 1)

/-- Carry a one into the `n` groups before the rounded one: the new digits with
the length to keep, or no length when the carry leaves the number. -/
def carryInto (digits : List Nat) : Nat → Option (List Nat × Option Nat)
  | 0 => some (digits, none)
  | n + 1 =>
    match digits[n]? with
    | none => none
    | some digit =>
      if digit = base - 1 then carryInto digits n
      else some (digits.set n (digit + 1), some (n + 1))

/-- A carry out of the leading group bumps the packed exponent unchecked. -/
def bumpExp (sign : NumberSign) (exp : Nat) : Nat :=
  match sign with
  | .negative => (exp + 127) % 128
  | .positive => (exp + 1) % 128

/-- The number when group `digitId` has been rounded up to the base. -/
def normalizeCarry (x : ObNumber) (digitId : Nat) : Option ObNumber :=
  match carryInto x.digits digitId with
  | none => none
  | some (digits, some kept) => some { x with digits := digits.take kept }
  | some (_, none) => some { sign := x.sign, exp := bumpExp x.sign x.exp, digits := [1] }

/-- Round group `digitId` to a multiple of `pow` and keep `len` groups. -/
def roundAt (x : ObNumber) (len digitId pow : Nat) : Option ObNumber :=
  match x.digits[digitId]? with
  | none => none
  | some digit =>
    let residue := digit % pow
    if pow / 2 ≤ residue then
      let rounded := digit + (pow - residue)
      if rounded = base then x.normalizeCarry digitId
      else some { x with digits := (x.digits.set digitId rounded).take len }
    else if digit - residue = 0 then
      let digits := x.digits.set digitId 0
      match trimmedLen digits len with
      | none => none
      | some 0 => some zero
      | some (kept + 1) => some { x with digits := digits.take (kept + 1) }
    else some { x with digits := (x.digits.set digitId (digit - residue)).take len }

def roundScaleV3 (x : ObNumber) (scale : Int) (usingFloatingScale : Bool) : Option ObNumber :=
  match x.digits with
  | [] => some x
  | first :: _ =>
    match x.roundPlan first scale usingFloatingScale with
    | .keep => some x
    | .toZero => some zero
    | .toOne => some (one x.sign)
    | .at len digitId powId =>
      if 0 ≤ len ∧ 0 ≤ digitId ∧ 0 ≤ powId then
        match roundPows[powId.toNat]? with
        | none => none
        | some pow => x.roundAt len.toNat digitId.toNat pow
      else none

/-- The end of every arithmetic operation with `do_rounding`. -/
def roundAfterArithmetic (res : Except NumberRet ObNumber) :
    Option (Except NumberRet ObNumber) :=
  match res with
  | .error ret => some (.error ret)
  | .ok x =>
    if minRoundDigitCount ≤ x.len then (x.roundScaleV3 floatingScale true).map .ok
    else some (.ok x)

/-! ### Values and canonical form -/

open Positional

/-- Group `j` of a digit array, zero behind its end. -/
def digitAt (digits : List Nat) (j : Nat) : Nat := digits.getD j 0

/-- The digits of a nonzero number without zero groups at either end. -/
structure Normal (digits : List Nat) : Prop where
  lt_base : ∀ d ∈ digits, d < base
  head_ne : digitAt digits 0 ≠ 0
  last_ne : digitAt digits (digits.length - 1) ≠ 0

/-- A stored number other than zero. -/
structure Stored (x : ObNumber) : Prop where
  normal : Normal x.digits
  len_le : x.len ≤ maxStoreLen
  exp_ge : -(maxDecimalExp : Int) ≤ x.getDecodeExp
  exp_le : x.getDecodeExp ≤ maxIntegerExp

def Canonical (x : ObNumber) : Prop := x = zero ∨ x.Stored

def signFactor : NumberSign → ℚ
  | .negative => -1
  | .positive => 1

/-- The absolute value of a number. -/
def magnitude (x : ObNumber) : ℚ :=
  scaled base (digitAt x.digits) x.getDecodeExp 0 x.len

def value (x : ObNumber) : ℚ := signFactor x.sign * x.magnitude

theorem base_eq : base = 1000000000 := rfl

theorem base_pos : 0 < base := by decide

theorem one_lt_base : 1 < base := by decide

@[simp]
theorem digitAt_nil (j : Nat) : digitAt [] j = 0 := rfl

@[simp]
theorem digitAt_cons_zero (d : Nat) (ds : List Nat) : digitAt (d :: ds) 0 = d := rfl

@[simp]
theorem digitAt_cons_succ (d : Nat) (ds : List Nat) (j : Nat) :
    digitAt (d :: ds) (j + 1) = digitAt ds j := rfl

variable {digits : List Nat}

theorem digitAt_of_getElem? {d : Nat} (h : digits[j]? = some d) :
    digitAt digits j = d := by
  simp [digitAt, h]

theorem getElem?_eq_digitAt (hj : j < digits.length) :
    digits[j]? = some (digitAt digits j) := by
  simp [digitAt, hj]

theorem digitAt_of_le (hj : digits.length ≤ j) :
    digitAt digits j = 0 := by
  simp [digitAt, hj]

theorem digitAt_take {k : Nat} (hj : j < k) :
    digitAt (digits.take k) j = digitAt digits j := by
  simp [digitAt, hj]

theorem digitAt_set_of_ne {i d : Nat} (hij : i ≠ j) :
    digitAt (digits.set i d) j = digitAt digits j := by
  simp [digitAt, List.getElem?_set_ne hij]

theorem digitAt_set_self {i d : Nat} (hi : i < digits.length) :
    digitAt (digits.set i d) i = d := by
  simp [digitAt, hi]

theorem digitAt_lt (h : ∀ d ∈ digits, d < base) (j : Nat) :
    digitAt digits j < base := by
  rcases Nat.lt_or_ge j digits.length with hj | hj
  · exact h _ (List.mem_of_getElem? (getElem?_eq_digitAt hj))
  · rw [digitAt_of_le hj]
    exact base_pos

theorem Normal.length_pos (h : Normal digits) : 0 < digits.length := by
  rcases digits with _ | ⟨d, ds⟩
  · exact absurd rfl h.head_ne
  · exact Nat.succ_pos _

@[simp]
theorem value_zero : zero.value = 0 := by
  simp [value, magnitude, scaled, zero, len]

theorem Stored.len_pos (h : x.Stored) : 0 < x.len := h.normal.length_pos

theorem Stored.isZero (h : x.Stored) : x.isZero = false := by
  have := h.normal.length_pos
  simp only [ObNumber.isZero, len, beq_eq_false_iff_ne]
  omega

theorem abs_signFactor (sign : NumberSign) : |signFactor sign| = 1 := by
  cases sign <;> simp [signFactor]

theorem magnitude_nonneg (x : ObNumber) : 0 ≤ x.magnitude := scaled_nonneg

theorem abs_value (x : ObNumber) : |x.value| = x.magnitude := by
  rw [value, abs_mul, abs_signFactor, one_mul, abs_of_nonneg x.magnitude_nonneg]

end ObNumber

end SeekDB
