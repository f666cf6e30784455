/-
Arrays of fixed size whose accesses are checked, and machine integers whose
range is checked: an access outside the array or a value outside the range has
no result.
-/
import SeekDB.ByteMemory

universe u

/-- `size` cells; what stands behind them is never read. -/
structure CheckedArray (α : Type u) where
  size : Nat
  cell : Nat → α

namespace CheckedArray

variable {α : Type u} {array : CheckedArray α} {i lo k : Nat}

def get? (array : CheckedArray α) (i : Nat) : Option α :=
  if i < array.size then some (array.cell i) else none

def set? (array : CheckedArray α) (i : Nat) (value : α) : Option (CheckedArray α) :=
  if i < array.size then some { array with cell := Function.update array.cell i value }
  else none

/-- Copy a list into the cells from `lo` on. -/
def store? (array : CheckedArray α) (lo : Nat) (values : List α) : Option (CheckedArray α) :=
  if lo + values.length ≤ array.size then
    some { array with cell := ByteMemory.store array.cell lo values }
  else none

/-- Copy `k` cells out. -/
def slice? (array : CheckedArray α) (lo k : Nat) : Option (List α) :=
  if lo + k ≤ array.size then some (ByteMemory.segment array.cell lo k) else none

theorem get?_eq (hi : i < array.size) : array.get? i = some (array.cell i) := by
  simp [get?, hi]

theorem set?_eq (hi : i < array.size) (value : α) :
    array.set? i value = some { array with cell := Function.update array.cell i value } := by
  simp [set?, hi]

theorem store?_eq {values : List α} (hlo : lo + values.length ≤ array.size) :
    array.store? lo values = some { array with cell := ByteMemory.store array.cell lo values } := by
  simp [store?, hlo]

theorem slice?_eq (hlo : lo + k ≤ array.size) :
    array.slice? lo k = some (ByteMemory.segment array.cell lo k) := by
  simp [slice?, hlo]

end CheckedArray

/-- A value of an unsigned type of `width` bits. -/
def unsigned (width value : Nat) : Option Nat :=
  if value < 2 ^ width then some value else none

/-- A value of a signed type of `width` bits. -/
def signed (width : Nat) (value : Int) : Option Int :=
  if -2 ^ (width - 1) ≤ value ∧ value < 2 ^ (width - 1) then some value else none

theorem unsigned_eq {width value : Nat} (h : value < 2 ^ width) :
    unsigned width value = some value := by
  simp [unsigned, h]

theorem signed_eq {width : Nat} {value : Int}
    (hlow : -2 ^ (width - 1) ≤ value) (hhigh : value < 2 ^ (width - 1)) :
    signed width value = some value := by
  simp [signed, hlow, hhigh]
