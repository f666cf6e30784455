/-
Constants, return codes, log sequence numbers and system change numbers of the
palf log service (log_define.h, lsn.h, scn.h, scn.cpp).

Both kinds of number are unsigned 64-bit words.  They are modelled by natural
numbers, and every place where the source may wrap takes the result modulo
2^64.
-/
import Mathlib

namespace SeekDB

/-- The return codes the modelled functions can produce. -/
inductive ObRet
  | success
  | initTwice
  | notInit
  | invalidArgument
  | eagain
  | errUnexpected
  | stateNotMatch
  | errOutOfLowerBound
  | errOutOfUpperBound
  | bufNotEnough
  | versionNotMatch
  | invalidData
  | checksumError
  | iterEnd
  | allocateMemoryFailed
  | sizeOverflow
  | deserializeError
  | invalidSize
  | notSupported
  deriving Repr, DecidableEq

def uint64Modulus : Nat := 2 ^ 64

/-- Unsigned 64-bit reduction. -/
def u64 (n : Nat) : Nat := n % uint64Modulus

/-- Unsigned 64-bit subtraction. -/
def u64Sub (a b : Nat) : Nat := (a + uint64Modulus - b) % uint64Modulus

theorem u64_eq_of_lt {n : Nat} (h : n < uint64Modulus) : u64 n = n :=
  Nat.mod_eq_of_lt h

theorem u64Sub_eq_of_le {a b : Nat} (hle : b ≤ a) (ha : a < uint64Modulus) :
    u64Sub a b = a - b := by
  unfold u64Sub
  have hsum : a + uint64Modulus - b = (a - b) + uint64Modulus := by omega
  rw [hsum, Nat.add_mod_right]
  exact Nat.mod_eq_of_lt (by omega)

/-! Sizes, from log_define.h and the two entry headers. -/

def maxLogHeaderSize : Nat := 4096

/-- `MAX_LOG_BODY_SIZE`, three and a half megabytes. -/
def maxLogBodySize : Nat := 3670016

def maxLogBufferSize : Nat := maxLogBodySize + maxLogHeaderSize + 4096

/-- `PALF_BLOCK_SIZE`: the log bytes of one block file. -/
def palfBlockSize : Nat := 67104768

def clogFileTailPaddingTrigger : Nat := 4096

def defaultGroupBufferSize : Nat := 2 ^ 22

def palfSlidingWindowSize : Nat := 2048

def palfMaxSubmitLogCount : Nat := 1024

/-- `LogEntryHeader::HEADER_SER_SIZE`, the size of the header's seven fields. -/
def logEntryHeaderSize : Nat := 32

/-- `LogGroupEntryHeader::HEADER_SER_SIZE`. -/
def logGroupEntryHeaderSize : Nat := 48

/-! Log sequence numbers. -/

/-- `LOG_INVALID_LSN_VAL`. -/
def logInvalidLsnVal : Nat := uint64Modulus - 1

/-- `LSN::is_valid`. -/
def lsnIsValid (lsn : Nat) : Bool := lsn != logInvalidLsnVal

def lsn2Block (lsn : Nat) : Nat := lsn / palfBlockSize

def lsn2Offset (lsn : Nat) : Nat := lsn % palfBlockSize

/-- `LOG_MAX_BLOCK_ID`. -/
def logMaxBlockId : Nat := (uint64Modulus - 1) / palfBlockSize - 1

def isValidBlockId (blockId : Nat) : Bool := decide (blockId < logMaxBlockId)

theorem lsn_eq_block_add_offset (lsn : Nat) :
    lsn = lsn2Block lsn * palfBlockSize + lsn2Offset lsn := by
  rw [Nat.mul_comm]
  exact (Nat.div_add_mod lsn palfBlockSize).symm

theorem lsn2Offset_lt (lsn : Nat) : lsn2Offset lsn < palfBlockSize :=
  Nat.mod_lt lsn (by decide)

theorem lsn2Block_of_offset {block offset : Nat} (h : offset < palfBlockSize) :
    lsn2Block (block * palfBlockSize + offset) = block := by
  unfold lsn2Block
  rw [Nat.mul_comm, Nat.mul_add_div (by decide), Nat.div_eq_of_lt h]
  rfl

theorem lsn2Offset_of_offset {block offset : Nat} (h : offset < palfBlockSize) :
    lsn2Offset (block * palfBlockSize + offset) = offset := by
  unfold lsn2Offset
  rw [Nat.mul_comm, Nat.mul_add_mod, Nat.mod_eq_of_lt h]

/-- The LSN lies in a block that `is_valid_block_id` accepts. -/
def LsnInRange (lsn : Nat) : Prop := isValidBlockId (lsn2Block lsn) = true

instance (lsn : Nat) : Decidable (LsnInRange lsn) :=
  inferInstanceAs (Decidable (_ = true))

theorem LsnInRange.add_block_lt {lsn : Nat} (h : LsnInRange lsn) :
    (lsn2Block lsn + 2) * palfBlockSize < uint64Modulus ∧ lsn + palfBlockSize < uint64Modulus := by
  have hlt : lsn2Block lsn < logMaxBlockId := of_decide_eq_true h
  have hvalid : lsn2Block lsn + 2 ≤ (uint64Modulus - 1) / palfBlockSize := by
    unfold logMaxBlockId at hlt
    omega
  have hmul := Nat.mul_le_mul_right palfBlockSize hvalid
  have hdiv := Nat.div_mul_le_self (uint64Modulus - 1) palfBlockSize
  have hlsn := lsn_eq_block_add_offset lsn
  have hoffset := lsn2Offset_lt lsn
  have hsucc : (lsn2Block lsn + 2) * palfBlockSize =
      lsn2Block lsn * palfBlockSize + palfBlockSize + palfBlockSize := by
    rw [Nat.add_mul, Nat.two_mul]
    omega
  omega

/-! System change numbers. -/

/-- `OB_INVALID_SCN_VAL`. -/
def obInvalidScnVal : Nat := uint64Modulus - 1

/-- `OB_MAX_SCN_TS_NS`. -/
def obMaxScnTsNs : Nat := 2 ^ 62 - 1

/-- `OB_MIN_SCN_TS_NS`. -/
def obMinScnTsNs : Nat := 0

/-- `SCN::is_valid`: the two version bits are zero. -/
def scnIsValid (scn : Nat) : Bool := decide (scn < 2 ^ 62)

/-- `SCN::convert_for_logservice`. -/
def convertForLogservice (scnVal : Nat) : Option Nat :=
  if obMaxScnTsNs < scnVal then none else some scnVal

/-- `SCN::plus`; the result is invalid when it would exceed the maximum. -/
def scnPlus (ref : Nat) (delta : Nat) : Nat :=
  if obMaxScnTsNs ≤ delta ∨ scnIsValid ref = false then obInvalidScnVal
  else if obMaxScnTsNs < u64 (ref + delta) then obInvalidScnVal
  else u64 (ref + delta)

/-- `SCN::operator<`: an invalid number lies below every valid one. -/
def scnLt (left right : Nat) : Bool :=
  if scnIsValid left = false then scnIsValid right
  else scnIsValid right && decide (left < right)

/-- `SCN::operator<=`. -/
def scnLe (left right : Nat) : Bool := !scnLt right left

/-- `SCN::min`; an invalid number is the result if there is one. -/
def scnMin (left right : Nat) : Nat :=
  if scnIsValid left = false then left
  else if scnIsValid right = false then right
  else if scnLt right left then right else left

theorem scnLt_of_valid {left right : Nat} (hleft : scnIsValid left = true)
    (hright : scnIsValid right = true) : scnLt left right = decide (left < right) := by
  simp [scnLt, hleft, hright]

theorem scnLe_of_valid {left right : Nat} (hleft : scnIsValid left = true)
    (hright : scnIsValid right = true) : scnLe left right = decide (left ≤ right) := by
  rw [scnLe, scnLt_of_valid hright hleft, ← decide_not, decide_eq_decide, Nat.not_lt]

/-- `SCN::inc_update`. -/
def scnIncUpdate (old ref : Nat) : Nat := if scnLt old ref then ref else old

end SeekDB
