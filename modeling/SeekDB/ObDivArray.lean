/-
Digit arrays for division: least significant group first in a buffer of fixed
size, with the operations of the two versions of the division algorithm.
-/
import SeekDB.ObNumber
import SeekDB.LongDivision

namespace SeekDB

/-- `len_` and `digits_`; what the buffer holds behind its length is arbitrary. -/
structure ObDivArray where
  len : Nat
  digits : CheckedArray Int

namespace ObDivArray

open Limbs LongDivision

def base : Int := 1000000000

/-- `OB_REM_BUFFER_SIZE`, the size of every array. -/
def remBufferSize : Nat := 32

/-- An array that was not written to yet. -/
def fresh (junk : Nat → Int) : CheckedArray Int := { size := remBufferSize, cell := junk }

/-- The digits of a number, with zeros below them up to `size` places. -/
def fromDigits (junk : Nat → Int) (digits : List Nat) (size : Nat) : Option ObDivArray :=
  let size := max size digits.length
  if size ≤ remBufferSize then
    some ⟨size, fresh fun p =>
      if size ≤ p then junk p
      else if p < size - digits.length then 0
      else (ObNumber.digitAt digits (size - 1 - p) : Int)⟩
  else none

/-- The digits in the order of a number, in a buffer that was all zeros. -/
def getUint32Digits (x : ObDivArray) (size : Nat) : CheckedArray Nat :=
  { size := size
    cell := fun i =>
      if x.len ≤ size ∧ i < x.len then (x.digits.cell (x.len - 1 - i) % 2 ^ 32).toNat else 0 }

def isZero (x : ObDivArray) : Bool :=
  (List.range x.len).all fun i => x.digits.cell i == 0

def copyTo (digits : CheckedArray Int) (l r : Nat) (junk : Nat → Int) : Option ObDivArray :=
  if r ≤ digits.size ∧ r - l ≤ remBufferSize then
    some ⟨r - l, fresh fun p => if p < r - l then digits.cell (l + p) else junk p⟩
  else none

def copyFrom (digits : CheckedArray Int) (source : ObDivArray) (loc : Nat) :
    Option (CheckedArray Int) :=
  if loc + source.len ≤ digits.size ∧ source.len ≤ source.digits.size then
    some ⟨digits.size, fun p =>
      if loc ≤ p ∧ p < loc + source.len then source.digits.cell (p - loc) else digits.cell p⟩
  else none

/-- The sign of the first digit from the top that is not zero. -/
def isNeg (digits : CheckedArray Int) : Nat → Option Bool
  | 0 => some false
  | i + 1 =>
    match digits.get? i with
    | none => none
    | some digit => if digit = 0 then isNeg digits i else some (decide (digit < 0))

/-! ### Loops over the digits -/

/-- The carry of a sum or a product. -/
def carryUp (temp : Int) : Int := if base ≤ temp then temp.tdiv base else 0

/-- The borrow of a difference. -/
def borrowOne (temp : Int) : Int := if temp < 0 then -1 else 0

/-- The borrow when a multiple has been subtracted. -/
def borrowMany (temp : Int) : Int :=
  if temp < 0 ∨ base ≤ temp then (temp + 1).tdiv base - 1 else 0

/-- Digits pushed until the carry is used up. -/
def pushCarry : Nat → ObDivArray → Int → Option ObDivArray
  | 0, _, _ => none
  | fuel + 1, c, carry =>
    if carry = 0 then some c
    else
      match c.digits.set? c.len (carry - carry.tdiv base * base) with
      | none => none
      | some digits => pushCarry fuel ⟨c.len + 1, digits⟩ (carry.tdiv base)

/-- `digits_[i] * b + carry`; the factor may multiply the array it is stored to. -/
def mulTerm (read : CheckedArray Int → CheckedArray Int) (factor : Int)
    (dst : CheckedArray Int) (i : Nat) (carry : Int) : Option Int :=
  ((read dst).get? i).bind fun digit =>
    (signed 64 (digit * factor)).bind fun product => signed 64 (product + carry)

def mul (len : Nat) (read : CheckedArray Int → CheckedArray Int) (factor : Int)
    (dst : CheckedArray Int) : Option ObDivArray :=
  match carryLoop base (mulTerm read factor) carryUp len 0 dst 0 with
  | none => none
  | some (digits, carry) => pushCarry (remBufferSize + 1) ⟨len, digits⟩ carry

/-- A digit of an operand, zero from its length on. -/
def operandDigit (x : ObDivArray) (i : Nat) : Option Int :=
  if i < x.len then x.digits.get? i else some 0

def addTerm (len : Nat) (b : ObDivArray) (dst : CheckedArray Int) (i : Nat) (carry : Int) :
    Option Int :=
  (operandDigit ⟨len, dst⟩ i).bind fun digit =>
    (operandDigit b i).bind fun other => signed 64 (carry + digit + other)

/-- `c.add(b, c)`. -/
def addInPlace (c b : ObDivArray) : Option ObDivArray :=
  let len := max c.len b.len
  match carryLoop base (addTerm c.len b) carryUp len 0 c.digits 0 with
  | none => none
  | some (digits, carry) => pushCarry (remBufferSize + 1) ⟨len, digits⟩ carry

def subTerm (a b : ObDivArray) (_ : CheckedArray Int) (i : Nat) (borrow : Int) : Option Int :=
  (operandDigit a i).bind fun digit =>
    (operandDigit b i).bind fun other => signed 64 (borrow + digit - other)

def sub (a b : ObDivArray) (dst : CheckedArray Int) : Option ObDivArray :=
  let len := max a.len b.len
  match carryLoop base (subTerm a b) borrowOne len 0 dst 0 with
  | none => none
  | some (digits, borrow) =>
    if borrow = -1 then (digits.set? len (-1)).map fun digits => ⟨len + 1, digits⟩
    else some ⟨len, digits⟩

/-- Division by a small number from the top, digit `i - 1` next. -/
def divDown (b : Int) : Nat → CheckedArray Int → Int → Option (CheckedArray Int)
  | 0, c, _ => some c
  | i + 1, c, remainder =>
    match (c.get? i).bind fun digit => signed 64 (remainder * base + digit) with
    | none => none
    | some remainder =>
      match c.set? i (remainder.tdiv b) with
      | none => none
      | some c => divDown b i c (remainder - remainder.tdiv b * b)

/-- `r.div(b, r)`. -/
def divInPlace (r : ObDivArray) (b : Int) : Option ObDivArray :=
  (divDown b r.len r.digits 0).map fun digits => ⟨r.len, digits⟩

/-! ### Algorithm D -/

/-- Step D3: the quotient digit estimated from two digits of the dividend and
tested once with the next one. -/
def estimate (b a : CheckedArray Int) (n j : Nat) : Option Int :=
  (a.get? (j + n)).bind fun high =>
    (a.get? (j + n - 1)).bind fun low =>
      (signed 64 (high * base + low)).bind fun value =>
        (b.get? (n - 1)).bind fun top =>
          if top = 0 then none
          else
            let qq := value.tdiv top
            let rr := value - qq * top
            if qq = base then some (qq - 1)
            else if 2 ≤ n then
              (b.get? (n - 2)).bind fun second =>
                (a.get? (j + n - 2)).bind fun third =>
                  (signed 64 (qq * second)).bind fun product =>
                    (signed 64 (base * rr + third)).bind fun rest =>
                      some (if rest < product then qq - 1 else qq)
            else some qq

/-- The round of `knuth_div`: steps D4 to D6 through temporary arrays. -/
def knuthRound (b : ObDivArray) (n : Nat) (junk : Nat → Int) (a : CheckedArray Int) (j : Nat) :
    Option (CheckedArray Int × Int) :=
  match estimate b.digits a n j with
  | none => none
  | some qq =>
    (copyTo a j (j + n + 1) junk).bind fun ct =>
      (mul b.len (fun _ => b.digits) qq (fresh junk)).bind fun product =>
        (sub ct product (fresh junk)).bind fun cf =>
          (isNeg cf.digits cf.len).bind fun negative =>
            if negative then
              (addInPlace cf b).bind fun cf => (copyFrom a cf j).map fun a => (a, qq - 1)
            else (copyFrom a cf j).map fun a => (a, qq)

def d4SubTerm (b : CheckedArray Int) (qq : Int) (j : Nat) (a : CheckedArray Int) (i : Nat)
    (borrow : Int) : Option Int :=
  (a.get? i).bind fun digit =>
    (b.get? (i - j)).bind fun other =>
      (signed 64 (other * qq)).bind fun product =>
        (signed 64 (digit - product)).bind fun difference => signed 64 (difference + borrow)

def d4AddTerm (b : CheckedArray Int) (j : Nat) (c : CheckedArray Int) (i : Nat) (borrow : Int) :
    Option Int :=
  (c.get? i).bind fun digit =>
    (b.get? (i - j)).bind fun other => signed 64 (digit + (other + borrow))

/-- `knuth_d4`: subtract a multiple in place, and add the divisor back when
that was too much. -/
def knuthD4 (b : CheckedArray Int) (n : Nat) (a : CheckedArray Int) (j : Nat) (qq : Int) :
    Option (CheckedArray Int × Int) :=
  match carryLoop base (d4SubTerm b qq j) borrowMany (n + 1) j a 0 with
  | none => none
  | some (a, borrow) =>
    if borrow < 0 then
      (a.get? (j + n)).bind fun top =>
        (signed 64 (top + borrow * base)).bind fun top =>
          (a.set? (j + n) top).bind fun a =>
            (carryLoop base (d4AddTerm b j) carryUp (n + 1) j a 0).map fun s => (s.1, qq - 1)
    else some (a, qq)

/-- The round of `knuth_div_v2`. -/
def knuthRoundV2 (b : CheckedArray Int) (n : Nat) (a : CheckedArray Int) (j : Nat) :
    Option (CheckedArray Int × Int) :=
  match estimate b a n j with
  | none => none
  | some qq => if qq = 0 then some (a, qq) else knuthD4 b n a j qq

/-- The normalising factor of a divisor. -/
def normaliser (b : ObDivArray) : Option Int :=
  (b.digits.get? (b.len - 1)).map fun top => base.tdiv (top + 1)

/-- Clear a place above the length. -/
def clearAbove (a : ObDivArray) (i : Nat) : Option ObDivArray :=
  if a.len ≤ i then (a.digits.set? i 0).map fun digits => ⟨a.len, digits⟩ else some a

/-- Step D1: both operands multiplied, two zero places above the dividend. -/
def normalise (a b : ObDivArray) : Option (ObDivArray × ObDivArray) :=
  (normaliser b).bind fun d =>
    (mul a.len id d a.digits).bind fun scaled =>
      (mul b.len id d b.digits).bind fun divisor =>
        (clearAbove scaled (a.len + 1)).bind fun cleared =>
          (clearAbove cleared a.len).map fun cleared => (cleared, divisor)

def knuthDiv (junk : Nat → Int) (a b : ObDivArray) : Option (ObDivArray × ObDivArray) :=
  if a.len < b.len then none
  else
    let n := b.len
    let m := a.len - n + 1
    (normalise a b).bind fun operands =>
      (divLoop (knuthRound operands.2 n junk) (m + 1) operands.1.digits (fresh junk)).bind
        fun s => (copyTo s.1 0 n junk).map fun r => (⟨m, s.2⟩, r)

def knuthDivV2 (junk : Nat → Int) (a b : ObDivArray) : Option (ObDivArray × ObDivArray) :=
  if a.len < b.len then none
  else
    let n := b.len
    let m := a.len - n + 1
    (normalise a b).bind fun operands =>
      (operands.2.digits.set? n 0).bind fun divisor =>
        (divLoop (knuthRoundV2 divisor n) (m + 1) operands.1.digits (fresh junk)).bind
          fun s => (copyTo s.1 0 n junk).map fun r => (⟨m, s.2⟩, r)

def divV2 (junk : Nat → Int) (a b : ObDivArray) : Option ObDivArray :=
  (knuthDivV2 junk a b).map Prod.fst

def rem (junk : Nat → Int) (a b : ObDivArray) : Option ObDivArray :=
  (knuthDiv junk a b).bind fun s =>
    (normaliser b).bind fun d => divInPlace s.2 d

end ObDivArray

end SeekDB
