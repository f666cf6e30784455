/-
The base64 encoder and decoder, with every byte they write to the output
buffer and its index: how far the one capacity test before each loop reaches.
-/
import Mathlib.Data.List.Count
import Mathlib.Tactic.SplitIfs

namespace SeekDB.ObBase64Encoder

open List

inductive Ret
  | success
  | invalidArgument
  | bufNotEnough
  deriving DecidableEq, Repr

/-- The output position and the bytes written so far, each with its index. -/
structure Output where
  pos : Nat
  writes : List (Nat × UInt8)
  deriving DecidableEq, Repr

def Output.put (out : Output) (byte : UInt8) : Output :=
  ⟨out.pos + 1, out.writes ++ [(out.pos, byte)]⟩

def base64Chars : List Char :=
  "ABCDEFGHIJKLMNOPQRSTUVWXYZabcdefghijklmnopqrstuvwxyz0123456789+/".toList

def base64Char (idx : UInt8) : UInt8 := (base64Chars.getD idx.toNat 'A').toUInt8

/-- `BASE64_VALUES`, zero for the bytes outside the alphabet. -/
def base64Value (c : UInt8) : UInt8 :=
  if 65 ≤ c && c ≤ 90 then c - 65
  else if 97 ≤ c && c ≤ 122 then c - 97 + 26
  else if 48 ≤ c && c ≤ 57 then c - 48 + 52
  else if c = 43 then 62
  else if c = 47 then 63
  else 0

def isBase64Char (c : UInt8) : Bool :=
  (65 ≤ c && c ≤ 90) || (97 ≤ c && c ≤ 122) || (48 ≤ c && c ≤ 57) || c = 43 || c = 47

/-- The bytes that `FROM_BASE64_TABLE` marks with -2. -/
def decoderSkipSpaces (c : UInt8) : Bool :=
  (9 ≤ c && c ≤ 13) || c = 32 || c = 160

/-- A line break follows round `i`. -/
def breaksAfter (inputLen : Nat) (wrap : Int) (i : Nat) : Bool :=
  wrap > 0 && (i + 1) % (wrap.toNat / 4) = 0 && (i + 1) * 3 ≠ inputLen

def encodeRound (input : List UInt8) (wrap : Int) (i : Nat) (out : Output) : Output :=
  let a := input.getD (3 * i) 0
  let b := input.getD (3 * i + 1) 0
  let c := input.getD (3 * i + 2) 0
  let out := out.put (base64Char ((a &&& 0xfc) >>> 2))
  let out := out.put (base64Char (((a &&& 0x03) <<< 4) + ((b &&& 0xf0) >>> 4)))
  let out := out.put (base64Char (((b &&& 0x0f) <<< 2) + ((c &&& 0xc0) >>> 6)))
  let out := out.put (base64Char (c &&& 0x3f))
  if breaksAfter input.length wrap i then out.put 10 else out

def encodeLoop (input : List UInt8) (wrap : Int) : Nat → Nat → Output → Output
  | 0, _, out => out
  | rounds + 1, i, out => encodeLoop input wrap rounds (i + 1) (encodeRound input wrap i out)

/-- The one or two bytes that remain.  They are written after a failed capacity test too,
then for the first bytes of the input. -/
def encodeTail (input : List UInt8) (outputLen curIdx : Nat) (ret : Ret) (out : Output) :
    Ret × Output :=
  if curIdx < input.length then
    let a := input.getD curIdx 0
    let b := input.getD (curIdx + 1) 0
    if out.pos + 3 ≥ outputLen then
      (.bufNotEnough, out)
    else if input.length = curIdx + 1 then
      (ret, (((out.put (base64Char ((a &&& 0xfc) >>> 2))).put
        (base64Char ((a &&& 0x03) <<< 4))).put 61).put 61)
    else
      (ret, (((out.put (base64Char ((a &&& 0xfc) >>> 2))).put
        (base64Char (((a &&& 0x03) <<< 4) + ((b &&& 0xf0) >>> 4)))).put
        (base64Char ((b &&& 0x0f) <<< 2))).put 61)
  else
    (ret, out)

def encode (input : List UInt8) (outputLen pos : Nat) (wrap : Int) : Ret × Output :=
  let rounds := input.length / 3
  if pos + rounds * 4 > outputLen then
    encodeTail input outputLen 0 .bufNotEnough ⟨pos, []⟩
  else
    encodeTail input outputLen (3 * rounds) .success (encodeLoop input wrap rounds 0 ⟨pos, []⟩)

/-- The decoder's loop: the group of up to four characters that is not decoded yet and the
spaces met so far. -/
structure Decoding where
  out : Output
  group : List UInt8
  skippedSpaces : Nat
  deriving DecidableEq, Repr

/-- The three bytes of a group. -/
def groupByte (group : List UInt8) (k : Nat) : UInt8 :=
  let v (j : Nat) := base64Value (group.getD j 0)
  match k with
  | 0 => (v 0 <<< 2) + ((v 1 &&& 0x30) >>> 4)
  | 1 => ((v 1 &&& 0x0f) <<< 4) + ((v 2 &&& 0x3c) >>> 2)
  | _ => ((v 2 &&& 0x03) <<< 6) + v 3

def Decoding.take (d : Decoding) (c : UInt8) : Decoding :=
  let group := d.group ++ [c]
  if group.length = 4 then
    { d with
      out := ((d.out.put (groupByte group 0)).put (groupByte group 1)).put (groupByte group 2)
      group := [] }
  else
    { d with group := group }

/-- The loop up to the first `=`, with the characters it leaves. -/
def decodeLoop (skipSpaces : Bool) : List UInt8 → Decoding → Ret × Decoding × List UInt8
  | [], d => (.success, d, [])
  | c :: rest, d =>
    if c = 61 then
      (.success, d, c :: rest)
    else if !isBase64Char c then
      if skipSpaces && decoderSkipSpaces c then
        decodeLoop skipSpaces rest { d with skippedSpaces := d.skippedSpaces + 1 }
      else
        (.invalidArgument, d, rest)
    else
      decodeLoop skipSpaces rest (d.take c)

/-- The rest must be `=`, and spaces where they are skipped. -/
def paddingSpaces (skipSpaces : Bool) : List UInt8 → Nat → Ret × Nat
  | [], spaces => (.success, spaces)
  | c :: rest, spaces =>
    if skipSpaces && decoderSkipSpaces c then paddingSpaces skipSpaces rest (spaces + 1)
    else if c ≠ 61 then (.invalidArgument, spaces)
    else paddingSpaces skipSpaces rest spaces

def checkPadding (skipSpaces : Bool) (inputLen curIdx curValidLen spaces : Nat) : Ret :=
  if !skipSpaces then
    if curIdx + 3 ≤ inputLen then .invalidArgument else .success
  else
    let validLen := inputLen - spaces
    if validLen % 4 ≠ 0 ∨ curValidLen + 3 ≤ validLen then .invalidArgument else .success

def decodeTail (skipSpaces : Bool) (outputLen : Nat) (d : Decoding) : Ret × Output :=
  if d.group.length > 0 then
    if d.out.pos + d.group.length - 1 ≥ outputLen then
      (if skipSpaces then .invalidArgument else .bufNotEnough, d.out)
    else
      (.success, (List.range (d.group.length - 1)).foldl
        (fun out k => out.put (groupByte d.group k)) d.out)
  else
    (.success, d.out)

/-- `OB_UNLIKELY` makes a truth value of its argument. -/
def obUnlikely (x : Nat) : Nat := if x ≠ 0 then 1 else 0

/-- The capacity test is `OB_UNLIKELY(rounds * 3) + pos > output_len`, so it asks for one byte
only. -/
def decode (input : List UInt8) (outputLen pos : Nat) (skipSpaces : Bool) : Ret × Output :=
  let rounds := input.length / 4
  if skipSpaces && input.all decoderSkipSpaces then
    (.success, ⟨0, []⟩)
  else if obUnlikely (rounds * 3) + pos > outputLen then
    (.bufNotEnough, ⟨pos, []⟩)
  else
    match decodeLoop skipSpaces input ⟨⟨pos, []⟩, [], 0⟩ with
    | (.success, d, rest) =>
      match paddingSpaces skipSpaces rest d.skippedSpaces with
      | (.success, spaces) =>
        let curIdx := input.length - rest.length
        match checkPadding skipSpaces input.length curIdx (curIdx - d.skippedSpaces)
          spaces with
        | .success => decodeTail skipSpaces outputLen d
        | ret => (ret, d.out)
      | (ret, _) => (ret, d.out)
    | (ret, d, _) => (ret, d.out)

section

variable {out : Output} {limit start : Nat}

/-- What has been written stands at the indices from `start` up to the position. -/
structure Output.Spans (start : Nat) (out : Output) : Prop where
  le : start ≤ out.pos
  indices : out.writes.map Prod.fst = List.range' start (out.pos - start)

@[simp]
theorem Output.pos_put (out : Output) (byte : UInt8) : (out.put byte).pos = out.pos + 1 := rfl

theorem Output.Spans.put (h : out.Spans start) (byte : UInt8) : (out.put byte).Spans start := by
  have hle := h.le
  have hsize : out.pos + 1 - start = out.pos - start + 1 := by omega
  refine ⟨Nat.le_succ_of_le hle, ?_⟩
  rw [Output.pos_put, hsize, range'_1_concat, ← h.indices, Nat.add_sub_cancel' hle]
  exact map_append ..

theorem spans_start (pos : Nat) : (⟨pos, []⟩ : Output).Spans pos :=
  ⟨Nat.le_refl pos, by simp⟩

/-- The last byte written is the first one to lie outside. -/
theorem Output.Spans.inBounds_iff (h : out.Spans start) (hstart : start ≤ limit) :
    (∀ write ∈ out.writes, write.1 < limit) ↔ out.pos ≤ limit := by
  have hindices : (∀ write ∈ out.writes, write.1 < limit) ↔
      ∀ i ∈ List.range' start (out.pos - start), i < limit := by
    rw [← h.indices, forall_mem_map]
  have hle := h.le
  rw [hindices]
  constructor
  · intro hall
    by_contra hlast
    have := hall (out.pos - 1) (mem_range'_1.mpr (by omega))
    omega
  · intro hpos i hi
    have := mem_range'_1.mp hi
    omega

/-- The line breaks that encoding writes. -/
def lineBreaks (inputLen : Nat) (wrap : Int) : Nat :=
  (List.range (inputLen / 3)).countP (breaksAfter inputLen wrap)

theorem encodeRound_spec (input : List UInt8) (wrap : Int) (i : Nat) (h : out.Spans start) :
    (encodeRound input wrap i out).Spans start ∧ (encodeRound input wrap i out).pos =
      out.pos + 4 + if breaksAfter input.length wrap i then 1 else 0 := by
  unfold encodeRound
  split_ifs
  · exact ⟨((((h.put _).put _).put _).put _).put _, rfl⟩
  · exact ⟨(((h.put _).put _).put _).put _, rfl⟩

theorem encodeLoop_spec (input : List UInt8) (wrap : Int) (rounds i : Nat) (h : out.Spans start) :
    (encodeLoop input wrap rounds i out).Spans start ∧
      (encodeLoop input wrap rounds i out).pos = out.pos + rounds * 4 +
        (List.range' i rounds).countP (breaksAfter input.length wrap) := by
  induction rounds generalizing i out with
  | zero => exact ⟨h, rfl⟩
  | succ rounds ih =>
    obtain ⟨hround, hpos⟩ := encodeRound_spec input wrap i h
    obtain ⟨hloop, hend⟩ := ih (i + 1) hround
    refine ⟨hloop, ?_⟩
    rw [encodeLoop, hend, hpos, range'_succ, countP_cons]
    omega

/-- The tail makes its own test, and neither leaves the buffer nor gets back into it. -/
theorem encodeTail_spec (input : List UInt8) (limit curIdx : Nat) (ret : Ret)
    (h : out.Spans start) :
    (encodeTail input limit curIdx ret out).2.Spans start ∧
      ((encodeTail input limit curIdx ret out).2.pos ≤ limit ↔ out.pos ≤ limit) := by
  unfold encodeTail
  split_ifs with hrest hroom hone
  · exact ⟨h, Iff.rfl⟩
  · exact ⟨(((h.put _).put _).put _).put _, by simp only [Output.pos_put]; omega⟩
  · exact ⟨(((h.put _).put _).put _).put _, by simp only [Output.pos_put]; omega⟩
  · exact ⟨h, Iff.rfl⟩

theorem Decoding.take_spec {d : Decoding} (c : UInt8) (h : d.out.Spans start)
    (hgroup : d.group.length < 4) :
    (d.take c).out.Spans start ∧ (d.take c).group.length < 4 ∧
      ∃ k, (d.take c).out.pos = d.out.pos + 3 * k ∧
        4 * k + (d.take c).group.length = d.group.length + 1 := by
  unfold Decoding.take
  simp only [length_append, length_singleton]
  split_ifs with hfull
  · exact ⟨((h.put _).put _).put _, Nat.zero_lt_succ 3, 1, rfl, by simp only [length_nil]; omega⟩
  · refine ⟨h, ?_, 0, rfl, ?_⟩ <;> simp only [length_append, length_singleton] <;> omega

/-- The characters that the loop decodes: those before the first one that is neither of the
alphabet nor a space to be skipped. -/
def decodedChars (skipSpaces : Bool) (input : List UInt8) : Nat :=
  (input.takeWhile fun c => isBase64Char c || (skipSpaces && decoderSkipSpaces c)).countP
    isBase64Char

theorem decodeLoop_spec (skipSpaces : Bool) (input : List UInt8) {d : Decoding}
    (h : d.out.Spans start) (hgroup : d.group.length < 4) :
    (decodeLoop skipSpaces input d).2.1.out.Spans start ∧
      (decodeLoop skipSpaces input d).2.1.out.pos =
        d.out.pos + 3 * ((d.group.length + decodedChars skipSpaces input) / 4) := by
  have hstop : d.out.pos = d.out.pos + 3 * ((d.group.length + 0) / 4) := by omega
  unfold decodedChars
  induction input generalizing d with
  | nil => exact ⟨h, hstop⟩
  | cons c rest ih =>
    rw [decodeLoop]
    by_cases hpad : c = 61
    · subst hpad
      rw [if_pos rfl, takeWhile_cons_of_neg (by cases skipSpaces <;> decide)]
      exact ⟨h, hstop⟩
    rw [if_neg hpad]
    by_cases hchar : isBase64Char c
    · obtain ⟨hspans, hlt, k, hpos, hk⟩ := Decoding.take_spec c h hgroup
      obtain ⟨hrest, hend⟩ := ih hspans hlt (by omega)
      rw [takeWhile_cons_of_pos (by simp [hchar]), countP_cons]
      simp only [hchar, Bool.not_true, Bool.false_eq_true, if_false, if_true]
      exact ⟨hrest, by omega⟩
    simp only [hchar, Bool.not_false, if_true]
    split_ifs with hskip
    · rw [takeWhile_cons_of_pos (by simp [hskip]), countP_cons, if_neg hchar]
      exact ih h hgroup hstop
    · rw [takeWhile_cons_of_neg (by simpa [hchar] using hskip)]
      exact ⟨h, hstop⟩

theorem decodeTail_spec (skipSpaces : Bool) (limit : Nat) {d : Decoding} (h : d.out.Spans start) :
    (decodeTail skipSpaces limit d).2.Spans start ∧
      ((decodeTail skipSpaces limit d).2.pos ≤ limit ↔ d.out.pos ≤ limit) := by
  have hputs (ks : List Nat) {out : Output} (hout : out.Spans start) :
      (ks.foldl (fun out k => out.put (groupByte d.group k)) out).Spans start ∧
        (ks.foldl (fun out k => out.put (groupByte d.group k)) out).pos = out.pos + ks.length := by
    induction ks generalizing out with
    | nil => exact ⟨hout, rfl⟩
    | cons k ks ih =>
      obtain ⟨hspans, hend⟩ := ih (hout.put (groupByte d.group k))
      refine ⟨hspans, ?_⟩
      rw [foldl_cons, hend, Output.pos_put, length_cons]
      omega
  unfold decodeTail
  split_ifs with hgroup hroom
  · exact ⟨h, Iff.rfl⟩
  · exact ⟨h, Iff.rfl⟩
  · obtain ⟨hspans, hend⟩ := hputs (List.range (d.group.length - 1)) h
    refine ⟨hspans, ?_⟩
    rw [hend, length_range]
    omega
  · exact ⟨h, Iff.rfl⟩

end

theorem decodedChars_le (skipSpaces : Bool) (input : List UInt8) :
    decodedChars skipSpaces input ≤ input.length :=
  Nat.le_trans countP_le_length ( takeWhile_prefix _).length_le

theorem decodedChars_of_spaces {input : List UInt8} (h : input.all decoderSkipSpaces = true) :
    decodedChars true input = 0 := by
  rw [decodedChars, countP_eq_zero]
  intro c hc
  have hspace := all_eq_true.mp h c (( takeWhile_prefix _).mem hc)
  simp only [decoderSkipSpaces, isBase64Char] at hspace ⊢
  grind

theorem decode_spec (input : List UInt8) {limit pos : Nat} (skipSpaces : Bool)
    (hpos : pos ≤ limit) :
    ∃ start ≤ pos, (decode input limit pos skipSpaces).2.Spans start ∧
      ((decode input limit pos skipSpaces).2.pos ≤ limit ↔
        pos = limit ∨ pos + 3 * (decodedChars skipSpaces input / 4) ≤ limit) := by
  have hstart : (⟨⟨pos, []⟩, [], 0⟩ : Decoding).out.Spans pos := spans_start pos
  obtain ⟨hloop, hend⟩ := decodeLoop_spec skipSpaces input hstart (Nat.zero_lt_succ 3)
  have hshort := decodedChars_le skipSpaces input
  unfold decode
  simp only
  split_ifs with hspaces htest
  · obtain ⟨rfl, hall⟩ := Bool.and_eq_true_iff.mp hspaces
    refine ⟨0, Nat.zero_le pos, spans_start 0, ?_⟩
    rw [decodedChars_of_spaces hall]
    simp [hpos]
  · refine ⟨pos, Nat.le_refl pos, spans_start pos, iff_of_true hpos ?_⟩
    unfold obUnlikely at htest
    split_ifs at htest <;> omega
  have hloopIff : (decodeLoop skipSpaces input ⟨⟨pos, []⟩, [], 0⟩).2.1.out.pos ≤ limit ↔
      pos = limit ∨ pos + 3 * (decodedChars skipSpaces input / 4) ≤ limit := by
    -- at the end of the buffer the test lets only inputs without a full group pass
    unfold obUnlikely at htest
    simp only [length_nil, Nat.zero_add] at hend
    rw [hend]
    split_ifs at htest <;> omega
  refine ⟨pos, Nat.le_refl pos, ?_⟩
  rw [← hloopIff]
  generalize decodeLoop skipSpaces input ⟨⟨pos, []⟩, [], 0⟩ = looped at hloop
  obtain ⟨ret, d, rest⟩ := looped
  cases ret with
  | success =>
    simp only
    generalize paddingSpaces skipSpaces rest d.skippedSpaces = padded
    obtain ⟨ret, spaces⟩ := padded
    cases ret with
    | success =>
      simp only
      generalize checkPadding skipSpaces input.length _ _ spaces = ret
      cases ret with
      | success => exact decodeTail_spec skipSpaces limit hloop
      | invalidArgument | bufNotEnough => exact ⟨hloop, Iff.rfl⟩
    | invalidArgument | bufNotEnough => exact ⟨hloop, Iff.rfl⟩
  | invalidArgument | bufNotEnough => exact ⟨hloop, Iff.rfl⟩

theorem encode_spec (input : List UInt8) {limit pos : Nat} (wrap : Int) (hpos : pos ≤ limit) :
    (encode input limit pos wrap).2.Spans pos ∧
      ((encode input limit pos wrap).2.pos ≤ limit ↔ limit < pos + input.length / 3 * 4 ∨
        pos + input.length / 3 * 4 + lineBreaks input.length wrap ≤ limit) := by
  unfold encode
  simp only
  split_ifs with htest
  · obtain ⟨hspans, hend⟩ := encodeTail_spec input limit 0 .bufNotEnough (spans_start pos)
    exact ⟨hspans, iff_of_true (hend.mpr hpos) (.inl htest)⟩
  obtain ⟨hloop, hend⟩ := encodeLoop_spec input wrap (input.length / 3) 0 (spans_start pos)
  obtain ⟨hspans, htail⟩ := encodeTail_spec input limit (3 * (input.length / 3)) .success hloop
  refine ⟨hspans, ?_⟩
  rw [htail, hend, ← range_eq_range', or_iff_right htest]
  rfl

/-- Encoding stays in the buffer exactly when the line breaks fit too or the capacity test
fails, and decoding when the full groups fit or the buffer is used up before. -/
theorem writes_in_bounds (input : List UInt8) (outputLen pos : Nat) (wrap : Int)
    (skipSpaces : Bool) (hpos : pos ≤ outputLen) :
    ((∀ write ∈ (encode input outputLen pos wrap).2.writes, write.1 < outputLen) ↔
      outputLen < pos + input.length / 3 * 4 ∨
        pos + input.length / 3 * 4 + lineBreaks input.length wrap ≤ outputLen) ∧
    ((∀ write ∈ (decode input outputLen pos skipSpaces).2.writes, write.1 < outputLen) ↔
      pos = outputLen ∨ pos + 3 * (decodedChars skipSpaces input / 4) ≤ outputLen) := by
  constructor
  · obtain ⟨hspans, hend⟩ := encode_spec input wrap hpos
    rw [hspans.inBounds_iff hpos, hend]
  · obtain ⟨start, hstart, hspans, hend⟩ := decode_spec input skipSpaces hpos
    rw [hspans.inBounds_iff (Nat.le_trans hstart hpos), hend]

theorem writes_in_bounds_six : (∀ write ∈ (encode [1, 2, 3, 4, 5, 6] 9 0 4).2.writes, write.1 < 9) ∧
      ∀ write ∈ (decode [65, 65, 32, 65, 65] 3 0 true).2.writes, write.1 < 3 :=
  ⟨(writes_in_bounds [1, 2, 3, 4, 5, 6] 9 0 4 false (by decide)).1.mpr (by decide),
    (writes_in_bounds [65, 65, 32, 65, 65] 3 0 0 true (by decide)).2.mpr (by decide)⟩

/-- Two rounds with a line break need nine bytes, and eight characters six. -/
theorem writes_out_of_bounds : (∃ write ∈ (encode [1, 2, 3, 4, 5, 6] 8 0 4).2.writes, 8 ≤ write.1) ∧
      ∃ write ∈ (decode [65, 65, 65, 65, 65, 65, 65, 65] 1 0 false).2.writes, 1 ≤ write.1 := by
  decide

end SeekDB.ObBase64Encoder
