/-
Checksums of data that arrives in pieces (ob_crc64.h, ob_crc64.cpp).

The bytes are collected in a buffer of 64 bytes, which is summed up whenever it
is full and whenever the checksum is asked for.  The sum goes byte by byte, so
neither changes the checksum of the data that follows.
-/
import Mathlib.Data.List.Basic

namespace SeekDB

/-- One byte of the `crc32` instruction on a register of 64 bits. -/
def crc32Byte (crc : BitVec 64) (byte : UInt8) : BitVec 64 :=
  let step (c : BitVec 32) : BitVec 32 :=
    if c.getLsbD 0 then 0x82f63b78#32 ^^^ (c >>> 1) else c >>> 1
  let start : BitVec 32 := crc.setWidth 32 ^^^ byte.toBitVec.setWidth 32
  (Nat.repeat step 8 start).setWidth 64

/-- `ob_crc64`.  The source takes eight bytes per instruction where it can. -/
def obCrc64 (crc : BitVec 64) (bytes : List UInt8) : BitVec 64 :=
  bytes.foldl crc32Byte crc

theorem obCrc64_append (crc : BitVec 64) (front back : List UInt8) :
    obCrc64 crc (front ++ back) = obCrc64 (obCrc64 crc front) back :=
  List.foldl_append

/-- `ObBatchChecksum`; the buffer holds the first `pos_` bytes. -/
structure BatchChecksum where
  base : BitVec 64
  buffer : List UInt8
  hasRoom : buffer.length < 64
  deriving Repr, DecidableEq

namespace BatchChecksum

def reset : BatchChecksum := ⟨0, [], by decide⟩

instance : Inhabited BatchChecksum := ⟨reset⟩

def fillByte (sum : BatchChecksum) (byte : UInt8) : BatchChecksum :=
  if h : sum.buffer.length + 1 < 64 then
    ⟨sum.base, sum.buffer ++ [byte], by rw [List.length_append]; exact h⟩
  else ⟨obCrc64 sum.base (sum.buffer ++ [byte]), [], by decide⟩

def fill (sum : BatchChecksum) (bytes : List UInt8) : BatchChecksum :=
  bytes.foldl fillByte sum

/-- `calc`, which also empties the buffer. -/
def calcSum (sum : BatchChecksum) : BitVec 64 × BatchChecksum :=
  if 0 < sum.buffer.length then
    (obCrc64 sum.base sum.buffer, ⟨obCrc64 sum.base sum.buffer, [], by decide⟩)
  else (sum.base, sum)

/-- The checksum of everything filled in so far. -/
def value (sum : BatchChecksum) : BitVec 64 := obCrc64 sum.base sum.buffer

theorem value_fillByte (sum : BatchChecksum) (byte : UInt8) :
    (sum.fillByte byte).value = crc32Byte sum.value byte := by
  unfold fillByte
  split <;> exact obCrc64_append sum.base sum.buffer [byte]

theorem value_fill (sum : BatchChecksum) (bytes : List UInt8) :
    (sum.fill bytes).value = obCrc64 sum.value bytes := by
  induction bytes generalizing sum with
  | nil => rfl
  | cons byte bytes ih =>
    have hstep := ih (sum.fillByte byte)
    rw [value_fillByte] at hstep
    exact hstep

theorem calcSum_fst (sum : BatchChecksum) : sum.calcSum.1 = sum.value := by
  unfold calcSum
  split_ifs with hempty
  · rfl
  · rw [value, List.eq_nil_of_length_eq_zero (Nat.eq_zero_of_not_pos hempty)]
    rfl

theorem value_calcSum (sum : BatchChecksum) : sum.calcSum.2.value = sum.value := by
  unfold calcSum
  split <;> rfl

end BatchChecksum

end SeekDB
