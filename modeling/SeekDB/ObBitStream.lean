/-
Bit streams (ob_bit_stream.h): numbers of up to 64 bits at any bit position of
a buffer.  A number is or-ed into zeroed memory as one word and, where the word
does not reach far enough, one more byte; it is read back byte by byte, or as a
short word when it is narrow.
-/
import SeekDB.BitMemory

namespace SeekDB.ObBitStream

open Nat
open BitVec hiding and_self

open BitMemory

def bitMaskTable : List (BitVec 8) := [0x0, 0x1, 0x3, 0x7, 0xf, 0x1f, 0x3f, 0x7f, 0xff]

def bitMask (k : Nat) : BitVec 8 := bitMaskTable.getD k 0

/-- `memory_safe_set` of a word, and of one more byte if told so. -/
def memorySafeSetWord (buf : Nat → BitVec 8) (off wordOff : Nat) (overflow : Bool) (v : BitVec 64) :
    Nat → BitVec 8 :=
  let buf := orWord buf off (v <<< wordOff)
  if overflow then
    orByte buf (off + 8) (bitMask wordOff &&& (v >>> (64 - wordOff)).setWidth 8)
  else buf

def memorySafeSet (buf : Nat → BitVec 8) (pos len : Nat) (v : BitVec 64) : Nat → BitVec 8 :=
  memorySafeSetWord buf (pos / 8) (pos % 8) (pos % 8 + len > 64) v

/-- `memory_safe_set` of a number that is known to be short. -/
def memorySafeSetShort (buf : Nat → BitVec 8) (pos : Nat) (v : BitVec 64) : Nat → BitVec 8 :=
  memorySafeSetWord buf (pos / 8) (pos % 8) false v

/-- The loop of `get` over the bytes of a number; it takes at least one bit in each round. -/
def getLoop (buf : Nat → BitVec 8) (cnt : Nat) : Nat → Nat → Nat → BitVec 64 → BitVec 64
  | 0, _, _, v => v
  | rounds + 1, index, done, v =>
    if done < cnt then
      let wordOff := index % 8
      let bit := min (cnt - done) (8 - wordOff)
      let wv := (bitMask bit &&& (buf (index / 8) >>> wordOff)).setWidth 64
      getLoop buf cnt rounds (index + bit) (done + bit) (v ||| wv <<< done)
    else v

def get (buf : Nat → BitVec 8) (offset cnt : Nat) : BitVec 64 := getLoop buf cnt cnt offset 0 0

/-- `get<PACKED_LEN_LESS_THAN_10>`: one byte near the end of the stream, else two. -/
def getLessThan10 (buf : Nat → BitVec 8) (offset cnt : Nat) (bsLen : Int) : BitVec 64 :=
  let byteOffset := offset / 8
  let bitOffset := offset % 8
  let bytes := if (offset : Int) ≥ bsLen - 8 ∧ bitOffset + cnt ≤ 8 then 1 else 2
  copyFrom buf byteOffset bytes >>> bitOffset &&& BitVec.ofNat 64 (1 <<< cnt - 1)

/-- `get<PACKED_LEN_LESS_THAN_26>`: byte by byte near the end of the stream, else four bytes. -/
def getLessThan26 (buf : Nat → BitVec 8) (offset cnt : Nat) (bsLen : Int) : BitVec 64 :=
  if (offset : Int) ≥ bsLen - 24 then get buf offset cnt
  else copyFrom buf (offset / 8) 4 >>> (offset % 8) &&& BitVec.ofNat 64 (1 <<< cnt - 1)

/-- The loop of `set` over the bytes of a number. -/
def setLoop (cnt : Nat) (v : BitVec 64) : Nat → Nat → Nat → (Nat → BitVec 8) → Nat → BitVec 8
  | 0, _, _, buf => buf
  | rounds + 1, index, done, buf =>
    if done < cnt then
      let wordOff := index % 8
      let bit := min (cnt - done) (8 - wordOff)
      let wv := (((bitMask bit).setWidth 64 &&& v >>> done) <<< wordOff).setWidth 8
      setLoop cnt v rounds (index + bit) (done + bit) (orByte buf (index / 8) wv)
    else buf

/-- `set` of an initialised stream of `bitLen` bits, if the index is in range. -/
def set (bitLen offset cnt : Nat) (value : BitVec 64) (buf : Nat → BitVec 8) :
    Option (Nat → BitVec 8) :=
  if cnt = 0 ∨ cnt ≥ 64 ∨ offset + cnt > bitLen then none
  else some (setLoop cnt value cnt offset 0 buf)

/-- The numbers of a list are set one after the other. -/
def setAll (bitLen width : Nat) : Nat → List (BitVec 64) → (Nat → BitVec 8) →
    Option (Nat → BitVec 8)
  | _, [], buf => some buf
  | offset, value :: values, buf =>
    (set bitLen offset width value buf).bind (setAll bitLen width (offset + width) values)

/-- `get` of an initialised stream. -/
def getChecked (bitLen offset cnt : Nat) (buf : Nat → BitVec 8) : Option (BitVec 64) :=
  if cnt = 0 ∨ cnt ≥ 64 ∨ offset + cnt > bitLen then none else some (get buf offset cnt)

inductive UnpackType
  | packedLenLessThan10
  | packedLenLessThan26
  | default
  deriving Repr, DecidableEq

def getUnpackFunc (packingLen : Nat) : UnpackType :=
  if packingLen < 10 then .packedLenLessThan10
  else if packingLen < 26 then .packedLenLessThan26
  else .default

/-- The unpack function of a type. -/
def UnpackType.unpack (type : UnpackType) (buf : Nat → BitVec 8) (offset cnt : Nat) (bsLen : Int) :
    BitVec 64 :=
  match type with
  | .packedLenLessThan10 => getLessThan10 buf offset cnt bsLen
  | .packedLenLessThan26 => getLessThan26 buf offset cnt bsLen
  | .default => get buf offset cnt

/-- The bytes the loop of `get` reads. -/
def getLoopReads (cnt : Nat) : Nat → Nat → Nat → List Nat
  | 0, _, _ => []
  | rounds + 1, index, done =>
    if done < cnt then
      let bit := min (cnt - done) (8 - index % 8)
      index / 8 :: getLoopReads cnt rounds (index + bit) (done + bit)
    else []

/-- The bytes an unpack function reads. -/
def UnpackType.reads (type : UnpackType) (offset cnt : Nat) (bsLen : Int) : List Nat :=
  match type with
  | .packedLenLessThan10 =>
    List.range' (offset / 8) (if (offset : Int) ≥ bsLen - 8 ∧ offset % 8 + cnt ≤ 8 then 1 else 2)
  | .packedLenLessThan26 =>
    if (offset : Int) ≥ bsLen - 24 then getLoopReads cnt cnt offset 0
    else List.range' (offset / 8) 4
  | .default => getLoopReads cnt cnt offset 0

variable {buf : Nat → BitVec 8} {pos len cnt offset i j k : Nat} {v : BitVec 64}

theorem getLsbD_bitMask (hk : k ≤ 8) (j : Nat) : (bitMask k).getLsbD j = decide (j < k) := by
  by_cases hj : j < 8
  · revert j k
    decide
  · rw [getLsbD_of_ge _ _ (by omega), decide_eq_false (by omega)]

theorem bit_memorySafeSet (buf : Nat → BitVec 8) (pos : Nat)
    (habove : ∀ j, len ≤ j → v.getLsbD j = false) (i : Nat) :
    bit (memorySafeSet buf pos len v) i =
      (bit buf i || (decide (pos ≤ i) && v.getLsbD (i - pos))) := by
  -- what the word itself contributes
  have hlow : (decide (8 * (pos / 8) ≤ i) && (v <<< (pos % 8)).getLsbD (i - 8 * (pos / 8))) =
      (decide (pos ≤ i ∧ i < 8 * (pos / 8) + 64) && v.getLsbD (i - pos)) := by
    have hindex : i - 8 * (pos / 8) - pos % 8 = i - pos := by omega
    rw [getLsbD_shiftLeft, hindex, Bool.eq_iff_iff]
    simp only [Bool.and_eq_true, Bool.not_eq_true', decide_eq_true_eq, decide_eq_false_iff_not]
    exact ⟨fun h => ⟨by omega, h.2.2⟩, fun h => ⟨by omega, ⟨by omega, by omega⟩, h.2⟩⟩
  unfold memorySafeSet memorySafeSetWord
  by_cases hover : pos % 8 + len > 64
  · have hhigh : (decide (8 * (pos / 8 + 8) ≤ i) &&
        (bitMask (pos % 8) &&& (v >>> (64 - pos % 8)).setWidth 8).getLsbD
          (i - 8 * (pos / 8 + 8))) =
        (decide (8 * (pos / 8) + 64 ≤ i) && v.getLsbD (i - pos)) := by
      rw [getLsbD_and, getLsbD_bitMask (by omega), getLsbD_setWidth,
        getLsbD_ushiftRight, Bool.eq_iff_iff]
      simp only [Bool.and_eq_true, decide_eq_true_eq]
      constructor
      · rintro ⟨hle, -, -, hv⟩
        rw [(by omega : 64 - pos % 8 + (i - 8 * (pos / 8 + 8)) = i - pos)] at hv
        exact ⟨by omega, hv⟩
      · rintro ⟨hle, hv⟩
        have hlt := lt_of_getLsbD hv
        rw [(by omega : 64 - pos % 8 + (i - 8 * (pos / 8 + 8)) = i - pos)]
        exact ⟨by omega, by omega, by omega, hv⟩
    simp only [hover, decide_true, if_true]
    rw [bit_orByte, bit_orWord, hlow, hhigh, Bool.or_assoc, ← Bool.and_or_distrib_right]
    congr 2
    rw [Bool.eq_iff_iff, Bool.or_eq_true, decide_eq_true_eq, decide_eq_true_eq, decide_eq_true_eq]
    omega
  · simp only [hover, decide_false, Bool.false_eq_true, if_false]
    rw [bit_orWord, hlow]
    by_cases hlt : i < 8 * (pos / 8) + 64
    · simp [hlt]
    · rw [habove (i - pos) (by omega)]
      simp

theorem memorySafeSetShort_eq (buf : Nat → BitVec 8) (pos : Nat) (v : BitVec 64) (hlen : len ≤ 57) :
    memorySafeSetShort buf pos v = memorySafeSet buf pos len v := by
  rw [memorySafeSetShort, memorySafeSet, decide_eq_false (by omega : ¬ pos % 8 + len > 64)]

/-- One round of `get`: the bits up to `done` are there, and so are those of the next byte. -/
theorem getLoop_spec (hcnt : cnt ≤ 64) :
    ∀ (rounds done : Nat) (v : BitVec 64), cnt ≤ done + rounds → done ≤ cnt →
      (∀ j, v.getLsbD j = (decide (j < done) && bit buf (offset + j))) →
      ∀ j, (getLoop buf cnt rounds (offset + done) done v).getLsbD j =
        (decide (j < cnt) && bit buf (offset + j)) := by
  intro rounds
  induction rounds with
  | zero =>
    intro done v hrounds hdone hv j
    have heq : done = cnt := by omega
    rw [getLoop, hv, heq]
  | succ rounds ih =>
    intro done v hrounds hdone hv j
    by_cases hlt : done < cnt
    · rw [getLoop, if_pos hlt]
      have hbit : min (cnt - done) (8 - (offset + done) % 8) ≤ cnt - done := Nat.min_le_left _ _
      have hbyte : min (cnt - done) (8 - (offset + done) % 8) ≤ 8 - (offset + done) % 8 :=
        Nat.min_le_right _ _
      have hpos : 0 < min (cnt - done) (8 - (offset + done) % 8) := by omega
      dsimp only
      generalize min (cnt - done) (8 - (offset + done) % 8) = bits at hbit hbyte hpos ⊢
      rw [Nat.add_assoc]
      apply ih (done + bits) _ (by omega) (by omega)
      intro j
      rw [getLsbD_or, hv, getLsbD_shiftLeft, getLsbD_setWidth,
        getLsbD_and, getLsbD_bitMask (by omega), getLsbD_ushiftRight]
      by_cases hlow : j < done
      · simp [hlow, (by omega : j < done + bits)]
      by_cases hhigh : j < done + bits
      · have hread : bit buf (offset + j) =
            (buf ((offset + done) / 8)).getLsbD ((offset + done) % 8 + (j - done)) := by
          have hsplit : offset + j =
              8 * ((offset + done) / 8) + ((offset + done) % 8 + (j - done)) := by omega
          rw [hsplit, bit_add_mul _ _ (by omega)]
        simp [hlow, hhigh, hread, (by omega : j < 64), (by omega : j - done < 64),
          (by omega : j - done < bits)]
      · have hout : ¬ j - done < bits := by omega
        simp [hlow, hhigh, hout]
    · have heq : done = cnt := by omega
      rw [getLoop, if_neg hlt, hv, heq]

theorem getLsbD_get (buf : Nat → BitVec 8) (offset : Nat) (hcnt : cnt ≤ 64) (j : Nat) :
    (get buf offset cnt).getLsbD j = (decide (j < cnt) && bit buf (offset + j)) :=
  getLoop_spec hcnt cnt 0 0 (by omega) (Nat.zero_le _) (by simp) j

theorem shifted_eq_get {bytes : Nat} (hbytes : bytes ≤ 8) (hcover : offset % 8 + cnt ≤ 8 * bytes) :
    copyFrom buf (offset / 8) bytes >>> (offset % 8) &&& BitVec.ofNat 64 (1 <<< cnt - 1) =
      get buf offset cnt := by
  apply eq_of_getLsbD_eq
  intro j hj
  rw [getLsbD_get buf offset (by omega), getLsbD_and, getLsbD_ushiftRight,
    getLsbD_copyFrom _ _ hbytes, getLsbD_ofNat, one_shiftLeft,
    testBit_two_pow_sub_one]
  have hindex : 8 * (offset / 8) + (offset % 8 + j) = offset + j := by omega
  rw [hindex]
  by_cases hlt : j < cnt
  · simp [hlt, hj, (by omega : offset % 8 + j < 8 * bytes)]
  · simp [hlt]

theorem getLessThan10_eq (buf : Nat → BitVec 8) (offset : Nat) (bsLen : Int) (hcnt : cnt < 10) :
    getLessThan10 buf offset cnt bsLen = get buf offset cnt := by
  unfold getLessThan10
  by_cases hend : (offset : Int) ≥ bsLen - 8 ∧ offset % 8 + cnt ≤ 8
  · simp only [hend, and_self, if_true]
    exact shifted_eq_get (by decide) hend.2
  · simp only [hend, if_false]
    exact shifted_eq_get (by decide) (by omega)

theorem getLessThan26_eq (buf : Nat → BitVec 8) (offset : Nat) (bsLen : Int) (hcnt : cnt < 26) :
    getLessThan26 buf offset cnt bsLen = get buf offset cnt := by
  unfold getLessThan26
  split
  · rfl
  · exact shifted_eq_get (by decide) (by omega)

theorem get_eq_of_field (hv : Field buf pos len v) (hlen : len ≤ 64) : get buf pos len = v :=
  hv.eq_of (getLsbD_get buf pos hlen)

/-- The bits of one round of `set`. -/
theorem getLsbD_setPart (v : BitVec 64) (hk : k ≤ 8 - pos) (hpos : pos < 8) (len j : Nat) :
    ((((bitMask k).setWidth 64 &&& v >>> len) <<< pos).setWidth 8).getLsbD j =
      (decide (pos ≤ j ∧ j < pos + k) && v.getLsbD (len + (j - pos))) := by
  rw [getLsbD_setWidth, getLsbD_shiftLeft, getLsbD_and,
    getLsbD_setWidth, getLsbD_bitMask (by omega), getLsbD_ushiftRight,
    Bool.eq_iff_iff]
  simp only [Bool.and_eq_true, Bool.not_eq_true', decide_eq_true_eq, decide_eq_false_iff_not]
  exact ⟨fun h => ⟨by omega, h.2.2.2⟩,
    fun h => ⟨by omega, ⟨by omega, by omega⟩, ⟨by omega, by omega⟩, h.2⟩⟩

theorem bit_setLoop (v : BitVec 64) :
    ∀ (rounds done : Nat) (buf : Nat → BitVec 8), cnt ≤ done + rounds → ∀ i,
      bit (setLoop cnt v rounds (offset + done) done buf) i =
        (bit buf i ||
          (decide (offset + done ≤ i ∧ i < offset + cnt) && v.getLsbD (i - offset))) := by
  intro rounds
  induction rounds with
  | zero =>
    intro done buf hrounds i
    rw [setLoop, decide_eq_false (by omega), Bool.false_and, Bool.or_false]
  | succ rounds ih =>
    intro done buf hrounds i
    rw [setLoop]
    split_ifs with hlt
    · have hbit := Nat.min_le_left (cnt - done) (8 - (offset + done) % 8)
      have hbyte := Nat.min_le_right (cnt - done) (8 - (offset + done) % 8)
      have hpos : 0 < min (cnt - done) (8 - (offset + done) % 8) := by omega
      dsimp only
      generalize min (cnt - done) (8 - (offset + done) % 8) = bits at hbit hbyte hpos ⊢
      rw [Nat.add_assoc, ih _ _ (by omega), bit_orByte,
        getLsbD_setPart v hbyte (Nat.mod_lt _ (by decide)), Bool.or_assoc]
      congr 1
      -- the round's own bits, and those after them
      rw [Bool.eq_iff_iff]
      simp only [Bool.or_eq_true, Bool.and_eq_true, decide_eq_true_eq]
      have hindex : offset + done ≤ i →
          done + (i - 8 * ((offset + done) / 8) - (offset + done) % 8) = i - offset := by omega
      constructor
      · rintro (⟨hle, hin, hv⟩ | h)
        · rw [hindex (by omega)] at hv
          exact ⟨by omega, hv⟩
        · exact ⟨by omega, h.2⟩
      · rintro ⟨hin, hv⟩
        by_cases hround : i < offset + (done + bits)
        · refine .inl ⟨by omega, by omega, ?_⟩
          rwa [hindex hin.1]
        · exact .inr ⟨by omega, hv⟩
    · rw [decide_eq_false (by omega), Bool.false_and, Bool.or_false]

theorem bit_set {bitLen : Nat} {buf' : Nat → BitVec 8} (h : set bitLen offset cnt v buf = some buf')
    (i : Nat) : bit buf' i =
      (bit buf i || (decide (offset ≤ i ∧ i < offset + cnt) && v.getLsbD (i - offset))) := by
  unfold set at h
  split_ifs at h
  cases h
  exact bit_setLoop v cnt 0 buf (by omega) i

/-- A packed list over memory that is zero from the offset on. -/
theorem setAll_spec {bitLen width : Nat} (hpos : 0 < width) (hwidth : width < 64) :
    ∀ (values : List (BitVec 64)) (offset : Nat) (buf : Nat → BitVec 8),
      (∀ value ∈ values, value.toNat < 2 ^ width) → offset + values.length * width ≤ bitLen →
      (∀ i, offset ≤ i → i < bitLen → bit buf i = false) →
      ∃ buf', setAll bitLen width offset values buf = some buf' ∧
        (∀ i < offset, bit buf' i = bit buf i) ∧
        ∀ k value, values[k]? = some value → Field buf' (offset + k * width) width value := by
  intro values
  induction values with
  | nil => exact fun offset buf _ _ _ => ⟨buf, rfl, fun _ _ => rfl, by simp⟩
  | cons value values ih =>
    intro offset buf hvalues hfits hzero
    rw [List.length_cons, Nat.succ_mul] at hfits
    obtain ⟨next, hnext⟩ : ∃ next, set bitLen offset width value buf = some next :=
      ⟨_, if_neg (by omega)⟩
    have hbits := bit_set hnext
    obtain ⟨buf', hall, hlow, hfield⟩ := ih (offset + width) next
      (fun w hw => hvalues w (List.mem_cons_of_mem _ hw)) (by omega) (fun i hi hlt => by
        rw [hbits, hzero i (by omega) hlt, decide_eq_false (by omega), Bool.false_and,
          Bool.or_false])
    refine ⟨buf', by rw [setAll, hnext, Option.bind_some, hall], fun i hi => ?_, fun k w hk => ?_⟩
    · rw [hlow i (by omega), hbits, decide_eq_false (by omega), Bool.false_and, Bool.or_false]
    · rcases k with _ | k
      · cases hk
        rw [Nat.zero_mul, Nat.add_zero]
        refine ⟨fun j hj => ?_, fun j hj => ?_⟩
        · rw [hlow _ (by omega), hbits, hzero _ (by omega) (by omega), decide_eq_true (by omega),
            Bool.true_and, Bool.false_or, Nat.add_sub_cancel_left]
        · rw [BitVec.getLsbD, testBit_lt_two_pow]
          exact (hvalues _ List.mem_cons_self).trans_le (Nat.pow_le_pow_right (by decide) hj)
      · have hoffset : offset + (k + 1) * width = offset + width + k * width := by ring
        rw [hoffset]
        exact hfield k w hk

theorem getLoopReads_lt :
    ∀ (rounds done : Nat), done ≤ cnt → ∀ p ∈ getLoopReads cnt rounds (offset + done) done,
      8 * p < offset + cnt := by
  intro rounds
  induction rounds with
  | zero => simp [getLoopReads]
  | succ rounds ih =>
    intro done hdone p hp
    rw [getLoopReads] at hp
    split_ifs at hp with hlt
    · rcases List.mem_cons.mp hp with rfl | hp
      · omega
      · rw [Nat.add_assoc] at hp
        exact ih _ (by omega) p hp
    · cases hp

/-- No unpack function reads a byte that is behind the number and the stream. -/
theorem reads_lt (type : UnpackType) {bsLen : Int} {stop : Nat} (hpos : 0 < cnt)
    (hnumber : offset + cnt ≤ stop) (hstop : bsLen ≤ stop) :
    ∀ p ∈ type.reads offset cnt bsLen, 8 * p < stop := by
  intro p hp
  have hloop : p ∈ getLoopReads cnt cnt offset 0 → 8 * p < stop := fun h =>
    (getLoopReads_lt cnt 0 (Nat.zero_le _) p h).trans_le hnumber
  cases type with
  | packedLenLessThan10 =>
    simp only [UnpackType.reads, List.mem_range'_1] at hp
    split_ifs at hp <;> omega
  | packedLenLessThan26 =>
    simp only [UnpackType.reads] at hp
    split_ifs at hp
    · exact hloop hp
    · rw [List.mem_range'_1] at hp
      omega
  | default => exact hloop hp

theorem unpack_eq_get (buf : Nat → BitVec 8) (offset cnt : Nat) (bsLen : Int) :
    (getUnpackFunc cnt).unpack buf offset cnt bsLen = get buf offset cnt := by
  unfold getUnpackFunc
  split_ifs with h10 h26
  · exact getLessThan10_eq buf offset bsLen h10
  · exact getLessThan26_eq buf offset bsLen h26
  · rfl

/-- What is packed is unpacked, from the bytes that hold it. -/
theorem packing_exact (bitLen width start : Nat)
    (values : List (BitVec 64)) (zeroed : Nat → BitVec 8)
    (hzeroed : ∀ i < bitLen, bit zeroed i = false) (hpos : 1 ≤ width) (hwidth : width ≤ 63)
    (hvalues : ∀ value ∈ values, value.toNat < 2 ^ width)
    (hfits : start + values.length * width ≤ bitLen) :
    (∀ offset cnt value buf buf', set bitLen offset cnt value buf = some buf' →
      ∀ i, i < offset ∨ offset + cnt ≤ i → bit buf' i = bit buf i) ∧
    ∃ buf, setAll bitLen width start values zeroed = some buf ∧
      ∀ k value, values[k]? = some value →
        getChecked bitLen (start + k * width) width buf = some value ∧
        get buf (start + k * width) width = value ∧
        ∀ bsLen : Int, bsLen ≤ start + values.length * width →
          (getUnpackFunc width).unpack buf (start + k * width) width bsLen = value ∧
          ∀ p ∈ (getUnpackFunc width).reads (start + k * width) width bsLen,
            8 * p < start + values.length * width := by
  refine ⟨fun offset cnt value buf buf' hset i hi => ?_, ?_⟩
  · rw [bit_set hset, decide_eq_false (by omega), Bool.false_and, Bool.or_false]
  obtain ⟨buf, hall, -, hfield⟩ := setAll_spec hpos (Nat.lt_succ_of_le hwidth) values start
    zeroed hvalues hfits (fun i _ => hzeroed i)
  refine ⟨buf, hall, fun k value hk => ?_⟩
  obtain ⟨hlt, -⟩ := List.getElem?_eq_some_iff.mp hk
  have hstop : (k + 1) * width ≤ values.length * width := Nat.mul_le_mul_right width hlt
  rw [Nat.succ_mul] at hstop
  have hget := get_eq_of_field (hfield k value hk) (by omega)
  refine ⟨?_, hget, fun bsLen hbs => ⟨(unpack_eq_get _ _ _ _).trans hget, ?_⟩⟩
  · rw [getChecked, if_neg (by omega), hget]
  · exact reads_lt _ hpos (by omega) (by exact_mod_cast hbs)

/-- Three values of nine bits, of which the second crosses two bytes. -/
theorem packing_exact_three_values :
    ∃ buf, setAll 32 9 2 [3, 500, 17] (fillZero (fun _ => 1) 0 4) = some buf ∧
      get buf 11 9 = 500 ∧ (getUnpackFunc 9).unpack buf 20 9 29 = 17 ∧
      ∀ p ∈ (getUnpackFunc 9).reads 20 9 29, 8 * p < 29 := by
  obtain ⟨-, buf, hset, hget⟩ := packing_exact 32 9 2 [3, 500, 17] (fillZero (fun _ => 1) 0 4)
    (fun i hi => bit_fillZero_of_lt hi) (by decide) (by decide) (by simp) (by decide)
  obtain ⟨hlast, hreads⟩ := (hget 2 17 rfl).2.2 29 (by decide)
  exact ⟨buf, hset, (hget 1 500 rfl).2.1, hlast, hreads⟩

end SeekDB.ObBitStream
