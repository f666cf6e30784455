/-
The codecs over a general compressor (ob_codecs.h, ob_universal_compression.h,
ob_tiered_codec.h).  The first `out_pos` bytes of an encoder's output are the list
it appends to; the output of a decoder is a buffer it writes into.  Allocations
succeed.
-/
import SeekDB.Serialization

namespace SeekDB

open List WireCodec Serialization ByteSlice

structure ObCodec where
  uintBytes : Nat
  blockSize : Nat
  maxEncodingSize : List UInt8 → Nat
  doEncode : List UInt8 → Writer ObRet
  doDecode : (input : List UInt8) → (inPos uintCount : Nat) → (out : List UInt8) →
    (outPos : Nat) → Except ObRet (Nat × List UInt8 × Nat)

namespace ObCodec

abbrev isValidUintBytes (codec : ObCodec) : Prop := codec.uintBytes ∈ [1, 2, 4, 8]

def encode (codec : ObCodec) (input : List UInt8) : Writer ObRet := fun outLen out =>
  if input = [] ∨ outLen = 0 ∨ ¬codec.isValidUintBytes then .error .invalidArgument
  else do
    let next ← codec.doEncode input outLen out
    if outLen < next.length then .error .errUnexpected else .ok next

/-- The positions behind what is read and written, and the buffer. -/
def decode (codec : ObCodec) (checkOutBuf : Bool) (input : List UInt8) (inPos uintCount : Nat)
    (out : List UInt8) (outPos : Nat) : Except ObRet (Nat × List UInt8 × Nat) :=
  if input = [] ∨ out = [] ∨ uintCount = 0 ∨ input.length < inPos ∨ out.length < outPos ∨
      (checkOutBuf ∧ out.length - outPos < uintCount * codec.uintBytes) ∨
      ¬codec.isValidUintBytes ∨ uintCount % codec.blockSize ≠ 0 then .error .invalidArgument
  else do
    let (inPos', out', outPos') ← codec.doDecode input inPos uintCount out outPos
    if input.length < inPos' ∨ out'.length < outPos' ∨
        (checkOutBuf ∧ uintCount * codec.uintBytes ≠ outPos' - outPos) then .error .errUnexpected
    else .ok (inPos', out', outPos')

end ObCodec

namespace ObCodec

/-- `encoded` is what the codec makes of `data`. -/
def Encodes (codec : ObCodec) (data encoded : List UInt8) : Prop :=
  ∃ outLen out, codec.encode data outLen out = .ok (out ++ encoded)

end ObCodec

open ObCodec

variable {compressor : ObCompressor} {codec : ObCodec} {data encoded : List UInt8}
  {uintBytes uintCount outPos : Nat} {out : List UInt8}

end SeekDB
