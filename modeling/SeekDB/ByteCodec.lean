/-
Fixed-width big-endian integers in lists of bytes, and records made of them.
Reading a record back from the front of any list gives its fields and what
follows them.
-/
import Mathlib

namespace ByteCodec

open List

/-- The low `width` bytes of `n`, most significant byte first. -/
def encodeNat : Nat → Nat → List UInt8
  | 0, _ => []
  | width + 1, n => encodeNat width (n / 256) ++ [UInt8.ofNat n]

def decodeNat (bytes : List UInt8) : Nat :=
  bytes.foldl (fun acc byte => acc * 256 + byte.toNat) 0

@[simp]
theorem length_encodeNat (width n : Nat) : (encodeNat width n).length = width := by
  induction width generalizing n with
  | zero => rfl
  | succ width ih => simp [encodeNat, ih]

theorem decodeNat_encodeNat {width n : Nat} (hn : n < 256 ^ width) :
    decodeNat (encodeNat width n) = n := by
  induction width generalizing n with
  | zero =>
    have hzero : n = 0 := by simpa using hn
    rw [hzero]
    rfl
  | succ width ih =>
    have hquot : n / 256 < 256 ^ width :=
      Nat.div_lt_of_lt_mul (by rw [Nat.mul_comm, ← Nat.pow_succ]; exact hn)
    have hbyte : (UInt8.ofNat n).toNat = n % 256 := by simp
    have hfold : decodeNat (encodeNat (width + 1) n) =
        decodeNat (encodeNat width (n / 256)) * 256 + (UInt8.ofNat n).toNat := by
      simp [decodeNat, encodeNat]
    rw [hfold, ih hquot, hbyte]
    omega

/-- Two's complement of `width` bytes. -/
def toUnsigned (width : Nat) (x : Int) : Nat := (x % (256 ^ width : Nat)).toNat

def toSigned (width n : Nat) : Int :=
  if 2 * n < 256 ^ width then n else n - (256 ^ width : Nat)

theorem decodeNat_append (front back : List UInt8) :
    decodeNat (front ++ back) = decodeNat front * 256 ^ back.length + decodeNat back := by
  induction back using List.reverseRecOn with
  | nil => simp [decodeNat]
  | append_singleton back byte ih =>
    simp only [decodeNat, foldl_append, foldl_cons, foldl_nil,
      length_append, length_singleton, Nat.pow_succ] at ih ⊢
    rw [ih, Nat.add_mul, Nat.mul_assoc]
    omega

theorem decodeNat_lt (bytes : List UInt8) : decodeNat bytes < 256 ^ bytes.length := by
  induction bytes using List.reverseRecOn with
  | nil => decide
  | append_singleton bytes byte =>
    have hbyte := byte.toNat_lt
    have hlast : decodeNat [byte] = byte.toNat := by simp [decodeNat]
    rw [decodeNat_append, hlast, length_append, length_singleton, Nat.pow_one, Nat.pow_succ]
    omega

theorem encodeNat_decodeNat (bytes : List UInt8) :
    encodeNat bytes.length (decodeNat bytes) = bytes := by
  induction bytes using List.reverseRecOn with
  | nil => rfl
  | append_singleton bytes byte ih =>
    have hbyte := byte.toNat_lt
    have hlast : decodeNat [byte] = byte.toNat := by simp [decodeNat]
    rw [decodeNat_append, hlast, length_append, length_singleton, Nat.pow_one, encodeNat]
    have hquot : (decodeNat bytes * 256 + byte.toNat) / 256 = decodeNat bytes := by omega
    have hrest : UInt8.ofNat (decodeNat bytes * 256 + byte.toNat) = byte := by
      apply UInt8.toNat_inj.mp
      rw [UInt8.toNat_ofNat']
      omega
    rw [hquot, ih, hrest]

/-! Least significant byte first. -/

/-- The low `width` bytes of `n`, least significant byte first. -/
def leBytes (width n : Nat) : List UInt8 := (encodeNat width n).reverse

def leNat (bytes : List UInt8) : Nat := decodeNat bytes.reverse

@[simp]
theorem length_leBytes (width n : Nat) : (leBytes width n).length = width := by
  simp [leBytes]

theorem leNat_leBytes {width n : Nat} (hn : n < 256 ^ width) : leNat (leBytes width n) = n := by
  rw [leNat, leBytes, reverse_reverse, decodeNat_encodeNat hn]

theorem leNat_lt (bytes : List UInt8) : leNat bytes < 256 ^ bytes.length := by
  have hlt := decodeNat_lt bytes.reverse
  rwa [length_reverse] at hlt

theorem leBytes_leNat (bytes : List UInt8) : leBytes bytes.length (leNat bytes) = bytes := by
  have hback := encodeNat_decodeNat bytes.reverse
  rw [length_reverse] at hback
  rw [leBytes, leNat, hback, reverse_reverse]

/-! Records. -/

/-- Fields with their widths, one after the other. -/
def encodeFields (fields : List (Nat × Nat)) : List UInt8 :=
  fields.flatMap fun field => encodeNat field.1 field.2

/-- Read fields of the given widths; `none` when there are too few bytes. -/
def decodeFields : List Nat → List UInt8 → Option (List Nat × List UInt8)
  | [], bytes => some ([], bytes)
  | width :: widths, bytes =>
    if bytes.length < width then none
    else
      (decodeFields widths (bytes.drop width)).map fun out =>
        (decodeNat (bytes.take width) :: out.1, out.2)

theorem decodeFields_encodeNat {width n : Nat} (hn : n < 256 ^ width) (widths : List Nat)
    (rest : List UInt8) :
    decodeFields (width :: widths) (encodeNat width n ++ rest) =
      (decodeFields widths rest).map fun out => (n :: out.1, out.2) := by
  simp [decodeFields, decodeNat_encodeNat hn]

end ByteCodec
