/-
Integers of variable length and the header of serialized objects
(serialization.h, ob_unify_serialize.h).

A signed integer is encoded as its bits.  An object is preceded by its version
and, in five bytes that are filled in afterwards, the length of its members.
-/
import SeekDB.PalfDefine
import SeekDB.WireCodec

namespace SeekDB.Serialization

open List Nat WireCodec ByteSlice

variable {buf bytes : List UInt8}

/-- The loop of `encode_vi64` and `encode_vi32`. -/
def viBytes (v : Nat) : List UInt8 :=
  if 0x7f < v then UInt8.ofNat (v ||| 0x80) :: viBytes (v >>> 7)
  else [UInt8.ofNat (v &&& 0x7f)]
termination_by v
decreasing_by
  rw [shiftRight_eq_div_pow]
  omega

def encodedLengthVi64 (v : BitVec 64) : Nat :=
  if v.toNat ≤ 2 ^ 7 - 1 then 1
  else if v.toNat ≤ 2 ^ 14 - 1 then 2
  else if v.toNat ≤ 2 ^ 21 - 1 then 3
  else if v.toNat ≤ 2 ^ 28 - 1 then 4
  else if v.toNat ≤ 2 ^ 35 - 1 then 5
  else if v.toNat ≤ 2 ^ 42 - 1 then 6
  else if v.toNat ≤ 2 ^ 49 - 1 then 7
  else if v.toNat ≤ 2 ^ 56 - 1 then 8
  else if v.toNat ≤ 2 ^ 63 - 1 then 9
  else 10

def encodedLengthVi32 (v : BitVec 32) : Nat :=
  if v.toNat ≤ 2 ^ 7 - 1 then 1
  else if v.toNat ≤ 2 ^ 14 - 1 then 2
  else if v.toNat ≤ 2 ^ 21 - 1 then 3
  else if v.toNat ≤ 2 ^ 28 - 1 then 4
  else 5

/-- What `encode_vi64` and `encode_vi32` have in common. -/
def encodeVi (encodedLength v : Nat) : Writer ObRet := fun bufLen out =>
  if out.length + encodedLength ≤ bufLen then .ok (out ++ viBytes v)
  else .error .sizeOverflow

def encodeVi64 (v : BitVec 64) : Writer ObRet := encodeVi (encodedLengthVi64 v) v.toNat

def encodeVi32 (v : BitVec 32) : Writer ObRet := encodeVi (encodedLengthVi32 v) v.toNat

/-- `OB_SERIALIZE_SIZE_NEED_BYTES`. -/
def obSerializeSizeNeedBytes : Nat := 5

/-- The loop of `encode_fixed_bytes_i64`, with `n` bytes to go. -/
def fixedBytes : Nat → Nat → List UInt8
  | 0, _ => []
  | 1, v => [UInt8.ofNat (v &&& 0x7f)]
  | n + 1, v => UInt8.ofNat (v ||| 0x80) :: fixedBytes n (v >>> 7)

/-- The loop of `decode_vi64` and `decode_vi32`.  The source looks at the byte
before it checks the length, but does not use it when there is none. -/
def decodeVi (width : Nat) (buf : List UInt8) (dataLen : Nat) (shift v pos : Nat) :
    Except ObRet (BitVec width × Nat) :=
  let byte := (buf.getD pos 0).toNat
  if dataLen < pos + 1 then .error .deserializeError
  else if byte &&& 0x80 ≠ 0 then
    decodeVi width buf dataLen (shift + 7)
      ((v ||| ((byte &&& 0x7f) <<< shift)) % 2 ^ width) (pos + 1)
  else .ok (BitVec.ofNat width (v ||| ((byte &&& 0x7f) <<< shift)), pos + 1)
termination_by dataLen - pos

def decodeVi64 : Reader ObRet (BitVec 64) := fun buf dataLen pos =>
  decodeVi 64 buf dataLen 0 0 pos

def decodeVi32 : Reader ObRet (BitVec 32) := fun buf dataLen pos =>
  decodeVi 32 buf dataLen 0 0 pos

/-! `OB_UNIS_SERIALIZE`, `OB_UNIS_DESERIALIZE` and `OB_UNIS_SERIALIZE_SIZE`. -/

def unisSerialize (version : BitVec 64) (members : Writer ObRet) : Writer ObRet :=
  fun bufLen out => do
    let out ← encodeVi64 version bufLen out
    let posBak := out.length + obSerializeSizeNeedBytes
    let written ← members bufLen (out ++ List.replicate obSerializeSizeNeedBytes 0)
    return out ++ fixedBytes obSerializeSizeNeedBytes (written.length - posBak) ++
      written.drop posBak

def unisSerializeSize (version : BitVec 64) (membersSize : Nat) : Nat :=
  membersSize + encodedLengthVi64 version + obSerializeSizeNeedBytes

variable {α : Type}

/-- `OB_UNIS_DECODE`: at the end of the data the old value stays. -/
def unisDecode (old : α) (reader : Reader ObRet α) : Reader ObRet α :=
  fun buf dataLen pos => if pos < dataLen then reader buf dataLen pos else .ok (old, pos)

def unisDeserialize (version : BitVec 64) (members : Reader ObRet α) : Reader ObRet α :=
  fun buf dataLen pos => do
    let (ver, pos) ← unisDecode 0 decodeVi64 buf dataLen pos
    let (len, pos) ← unisDecode 0 decodeVi64 buf dataLen pos
    if ver ≠ version then .error .notSupported
    else if len.toInt < 0 then .error .errUnexpected
    else if dataLen < len.toNat + pos then .error .deserializeError
    else
      let (a, _) ← members (buf.drop pos) len.toNat 0
      return (a, pos + len.toNat)

/-! Integers. -/

theorem or_marker (v : Nat) : UInt8.ofNat (v ||| 0x80) = UInt8.ofNat (v % 128 + 128) := by
  have hsmall : ∀ x < 256, x ||| 128 = x % 128 + 128 := by decide +kernel
  apply UInt8.toNat_inj.mp
  rw [UInt8.toNat_ofNat', UInt8.toNat_ofNat', or_mod_two_pow, hsmall _ (mod_lt _ (by omega))]
  omega

theorem and_digit (v : Nat) : v &&& 0x7f = v % 128 :=
  and_two_pow_sub_one_eq_mod v 7

theorem shift_digit (v : Nat) : v >>> 7 = v / 128 :=
  shiftRight_eq_div_pow v 7

theorem viBytes_eq (v : Nat) : viBytes v = varBytes v := by
  induction v using Nat.strongRecOn with
  | ind v ih =>
    rw [viBytes]
    split_ifs with hlarge
    · rw [varBytes_of_le hlarge, or_marker, shift_digit, ih (v / 128) (by omega)]
    · rw [varBytes_of_lt (by omega), and_digit, mod_eq_of_lt (by omega)]

theorem encodedLengthVi64_eq (v : BitVec 64) : encodedLengthVi64 v = (varBytes v.toNat).length := by
  have hlen : ∀ digits, (digits = 0 ∨ 128 ^ digits ≤ v.toNat) →
      v.toNat < 128 ^ (digits + 1) → digits + 1 = (varBytes v.toNat).length :=
    fun digits hlow hhigh => (length_varBytes hlow hhigh).symm
  unfold encodedLengthVi64
  split
  · exact hlen 0 (.inl rfl) (by omega)
  split
  · exact hlen 1 (.inr (by omega)) (by omega)
  split
  · exact hlen 2 (.inr (by omega)) (by omega)
  split
  · exact hlen 3 (.inr (by omega)) (by omega)
  split
  · exact hlen 4 (.inr (by omega)) (by omega)
  split
  · exact hlen 5 (.inr (by omega)) (by omega)
  split
  · exact hlen 6 (.inr (by omega)) (by omega)
  split
  · exact hlen 7 (.inr (by omega)) (by omega)
  split
  · exact hlen 8 (.inr (by omega)) (by omega)
  · exact hlen 9 (.inr (by omega)) (by omega)

theorem encodedLengthVi32_eq (v : BitVec 32) : encodedLengthVi32 v = (varBytes v.toNat).length := by
  have hwide := encodedLengthVi64_eq (v.zeroExtend 64)
  have htoNat : (v.zeroExtend 64).toNat = v.toNat := BitVec.toNat_setWidth_of_le (by decide)
  rw [htoNat] at hwide
  rw [← hwide]
  unfold encodedLengthVi32 encodedLengthVi64
  rw [htoNat]
  have hfive : v.toNat ≤ 2 ^ 35 - 1 := by omega
  rw [if_pos hfive]

theorem writes_encodeVi64 (v : BitVec 64) : (encodeVi64 v).Writes (varBytes v.toNat) := by
  intro bufLen out hroom
  rw [encodeVi64, encodeVi, encodedLengthVi64_eq, if_pos hroom, viBytes_eq]

theorem writes_encodeVi32 (v : BitVec 32) : (encodeVi32 v).Writes (varBytes v.toNat) := by
  intro bufLen out hroom
  rw [encodeVi32, encodeVi, encodedLengthVi32_eq, if_pos hroom, viBytes_eq]

theorem fixedBytes_varNat (n v : Nat) (hv : v < 128 ^ (n + 1)) :
    VarNat v (fixedBytes (n + 1) v) := by
  induction n generalizing v with
  | zero =>
    have hlt : v < 128 := by simpa using hv
    rw [fixedBytes, and_digit, mod_eq_of_lt hlt]
    exact .last hlt
  | succ n ih =>
    have hrest : v / 128 < 128 ^ (n + 1) := by
      rw [Nat.div_lt_iff_lt_mul (by omega), ← Nat.pow_succ]
      exact hv
    have hmore := VarNat.more (mod_lt v (by omega)) (ih (v / 128) hrest)
    rw [mod_add_div] at hmore
    rw [fixedBytes, or_marker, shift_digit]
    · exact hmore
    · simp

theorem length_fixedBytes (n v : Nat) : (fixedBytes n v).length = n := by
  induction n generalizing v with
  | zero => rfl
  | succ n ih =>
    cases n with
    | zero => rfl
    | succ => rw [fixedBytes, length_cons, ih]; simp

theorem digit_bits {digit : Nat} (hdigit : digit < 128) :
    digit &&& 0x80 = 0 ∧ (digit + 128) &&& 0x80 ≠ 0 ∧ digit &&& 0x7f = digit ∧
      (digit + 128) &&& 0x7f = digit := by
  have hall : ∀ digit < 128, digit &&& 0x80 = 0 ∧ (digit + 128) &&& 0x80 ≠ 0 := by
    decide +kernel
  refine ⟨(hall digit hdigit).1, (hall digit hdigit).2, ?_, ?_⟩
  · rw [and_digit, mod_eq_of_lt hdigit]
  · rw [and_digit, add_mod_right, mod_eq_of_lt hdigit]

theorem or_shift {v shift : Nat} (hv : v < 2 ^ shift) (digit : Nat) :
    v ||| (digit <<< shift) = v + digit * 2 ^ shift := by
  rw [shiftLeft_eq, Nat.or_comm, Nat.mul_comm, ← two_pow_add_eq_or_of_lt hv, Nat.add_comm]

theorem getD_of_slice {rest : List UInt8} {pos : Nat} {byte : UInt8}
    (hslice : Slice buf pos (byte :: rest)) : buf.getD pos 0 = byte := by
  have hget := slice_singleton.mp (slice_append.mp hslice).1
  rw [getD_eq_getElem?_getD, hget, Option.getD_some]

theorem decodeVi_varNat {width n : Nat} {digits : List UInt8} {dataLen shift v pos : Nat}
    (hdigits : VarNat n digits) (hslice : Slice buf pos digits)
    (hlen : pos + digits.length ≤ dataLen) (hv : v < 2 ^ shift)
    (hwidth : v + n * 2 ^ shift < 2 ^ width) :
    decodeVi width buf dataLen shift v pos =
      .ok (BitVec.ofNat width (v + n * 2 ^ shift), pos + digits.length) := by
  induction hdigits generalizing shift v pos with
  | @last n hn =>
    obtain ⟨hmarker, -, hlow, -⟩ := digit_bits hn
    have hbyte : (UInt8.ofNat n).toNat = n := by
      rw [UInt8.toNat_ofNat', mod_eq_of_lt (by omega)]
    rw [length_singleton] at hlen ⊢
    rw [decodeVi, getD_of_slice hslice, hbyte, if_neg (by omega), if_neg (by simp [hmarker]), hlow,
      or_shift hv]
  | @more digit n rest hdigit _ ih =>
    obtain ⟨-, hmarker, -, hlow⟩ := digit_bits hdigit
    have hbyte : (UInt8.ofNat (digit + 128)).toNat = digit + 128 := by
      rw [UInt8.toNat_ofNat', mod_eq_of_lt (by omega)]
    have hvalue : v + (digit + 128 * n) * 2 ^ shift =
        v + digit * 2 ^ shift + n * 2 ^ (shift + 7) := by
      rw [Nat.pow_add]
      ring
    have hlower : v + digit * 2 ^ shift < 2 ^ (shift + 7) := by
      have hle : (digit + 1) * 2 ^ shift ≤ 128 * 2 ^ shift :=
        Nat.mul_le_mul_right _ hdigit
      rw [Nat.pow_add]
      rw [Nat.add_one_mul] at hle
      omega
    rw [hvalue] at hwidth ⊢
    rw [length_cons] at hlen ⊢
    have hrest : Slice buf (pos + 1) rest := by
      rw [← singleton_append] at hslice
      exact (slice_append.mp hslice).2
    rw [decodeVi, getD_of_slice hslice, hbyte, if_neg (by omega), if_pos hmarker, hlow, or_shift hv,
      mod_eq_of_lt (Nat.lt_of_le_of_lt (Nat.le_add_right _ _) hwidth),
      ih hrest (by omega) hlower hwidth, Nat.add_right_comm pos]
    rfl

theorem reads_decodeVi64 {v : BitVec 64} {digits : List UInt8} (hdigits : VarNat v.toNat digits) :
    decodeVi64.Reads digits v := by
  intro buf dataLen pos hslice hlen
  have hlt : 0 + v.toNat * 2 ^ 0 < 2 ^ 64 := by simpa using v.isLt
  rw [decodeVi64, decodeVi_varNat hdigits hslice hlen (by decide) hlt]
  simp

theorem reads_decodeVi32 (v : BitVec 32) : decodeVi32.Reads (varBytes v.toNat) v := by
  intro buf dataLen pos hslice hlen
  have hlt : 0 + v.toNat * 2 ^ 0 < 2 ^ 32 := by simpa using v.isLt
  rw [decodeVi32, decodeVi_varNat (varNat_varBytes _) hslice hlen (by decide) hlt]
  simp

/-! Objects. -/

/-- Bytes of an object with version and length. -/
def unisBytes (version : BitVec 64) (members : List UInt8) : List UInt8 :=
  varBytes version.toNat ++ fixedBytes obSerializeSizeNeedBytes members.length ++ members

theorem length_unisBytes (version : BitVec 64) (members : List UInt8) :
    (unisBytes version members).length = unisSerializeSize version members.length := by
  rw [unisBytes, unisSerializeSize, encodedLengthVi64_eq, length_append,
    length_append, length_fixedBytes]
  omega

theorem writes_unisSerialize
    {version : BitVec 64} {members : Writer ObRet} (hmembers : members.Writes bytes) :
    (unisSerialize version members).Writes (unisBytes version bytes) := by
  intro bufLen out hroom
  rw [unisBytes, length_append, length_append, length_fixedBytes] at hroom
  unfold unisSerialize
  rw [writes_encodeVi64 version bufLen out (by omega)]
  -- the members stand behind the gap that is left for their length
  have hgap : (out ++ varBytes version.toNat ++ List.replicate obSerializeSizeNeedBytes 0).length =
      (out ++ varBytes version.toNat).length + obSerializeSizeNeedBytes := by
    rw [length_append, length_replicate]
  have hbody := hmembers bufLen (out ++ varBytes version.toNat ++
    List.replicate obSerializeSizeNeedBytes 0) (by rw [hgap, length_append]; omega)
  simp only [bind, Except.bind, hbody, pure, Except.pure, ← hgap, drop_left]
  rw [length_append, Nat.add_sub_cancel_left]
  simp only [unisBytes, append_assoc]

theorem unisDecode_reads {old a : α} {reader : Reader ObRet α}
    (hreader : reader.Reads bytes a) (hne : bytes ≠ []) :
    (unisDecode old reader).Reads bytes a := by
  intro buf dataLen pos hslice hlen
  have hpos := length_pos_of_ne_nil hne
  rw [unisDecode, if_pos (by omega)]
  exact hreader buf dataLen pos hslice hlen

theorem slice_drop {part : List UInt8} {pos : Nat} (hslice : Slice buf pos part) :
    Slice (buf.drop pos) 0 part := by
  obtain ⟨-, rest, hrest⟩ := hslice
  exact ⟨Nat.zero_le _, rest, by rw [drop_zero, hrest]⟩

theorem reads_unisDeserialize
    {version : BitVec 64} {members : Reader ObRet α} {a : α} (hmembers : members.Reads bytes a)
    (hlen : bytes.length < 128 ^ 5) :
    (unisDeserialize version members).Reads (unisBytes version bytes) a := by
  intro buf dataLen pos hslice hdata
  have hver : (unisDecode 0 decodeVi64).Reads (varBytes version.toNat) version :=
    unisDecode_reads (reads_decodeVi64 (varNat_varBytes _)) (varBytes_ne_nil _)
  have htoNat : (BitVec.ofNat 64 bytes.length).toNat = bytes.length := by
    rw [BitVec.toNat_ofNat, mod_eq_of_lt (by omega)]
  have hsize : (unisDecode 0 decodeVi64).Reads
      (fixedBytes obSerializeSizeNeedBytes bytes.length) (BitVec.ofNat 64 bytes.length) := by
    apply unisDecode_reads
    · apply reads_decodeVi64
      rw [htoNat]
      exact fixedBytes_varNat 4 bytes.length hlen
    · apply ne_nil_of_length_pos
      rw [length_fixedBytes]
      decide
  have htoInt : ¬ (BitVec.ofNat 64 bytes.length).toInt < 0 := by
    rw [BitVec.toInt_eq_toNat_of_lt (by rw [htoNat]; omega)]
    omega
  obtain ⟨hhead, hbody⟩ := slice_append.mp hslice
  obtain ⟨hfirst, hsecond⟩ := slice_append.mp hhead
  rw [unisBytes, length_append] at hdata
  rw [length_append] at hdata hbody
  unfold unisDeserialize
  rw [hver buf dataLen pos hfirst (by omega)]
  simp only [bind, Except.bind]
  rw [hsize buf dataLen _ hsecond (by omega)]
  simp only [htoNat, ne_eq, not_true_eq_false, if_false, if_neg htoInt]
  rw [if_neg (by omega), hmembers _ _ 0 (slice_drop (by rwa [Nat.add_assoc])) (by omega)]
  simp [unisBytes, pure, Except.pure, Nat.add_assoc]

/-- A number is written in the computed length and read back. -/
theorem vi64_round_trip (v : BitVec 64) : ∃ bytes, bytes.length = encodedLengthVi64 v ∧
    (encodeVi64 v).Writes bytes ∧ decodeVi64.Reads bytes v :=
  ⟨_, (encodedLengthVi64_eq v).symm, writes_encodeVi64 v, reads_decodeVi64 (varNat_varBytes _)⟩

end SeekDB.Serialization
