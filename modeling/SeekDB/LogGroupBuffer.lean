/-
The group buffer (log_group_buffer.h, log_group_buffer.cpp): a ring in which
log bytes are collected before they are flushed, and from which recent bytes
can be read again.

A pointer to bytes is a function from offsets to bytes.  Only buffers that have
been initialised are modelled.
-/
import SeekDB.PalfDefine
import SeekDB.Execution
import SeekDB.RingCells

namespace SeekDB

open Option

structure LogGroupBuffer where
  startLsn : Nat
  reuseLsn : Nat
  readableBeginLsn : Nat
  reservedBufferSize : Nat
  availableBufferSize : Nat
  dataBuf : Nat → UInt8

/-- `PADDING_LOG_CONTENT_CHAR`. -/
def paddingLogContentChar : UInt8 := 0

namespace LogGroupBuffer

/-- `init`; `none` is `OB_INVALID_ARGUMENT`. -/
def init (startLsn : Nat) : Option LogGroupBuffer :=
  if lsnIsValid startLsn = false then none
  else some
    { startLsn := startLsn
      reuseLsn := startLsn
      readableBeginLsn := startLsn
      reservedBufferSize := defaultGroupBufferSize
      availableBufferSize := defaultGroupBufferSize
      dataBuf := fun _ => 0 }

/-- `get_buffer_pos_`.  The distance `diff_len` is an int64, and its assertion ends the
process from 2^63 on; here such a call fails and changes nothing. -/
def getBufferPos (buffer : LogGroupBuffer) (lsn : Nat) : Except ObRet Nat :=
  if lsnIsValid lsn = false then .error .invalidArgument
  else if lsn < buffer.startLsn then .error .errOutOfLowerBound
  else if 2 ^ 63 ≤ lsn - buffer.startLsn then .error .errUnexpected
  else .ok ((lsn - buffer.startLsn) % buffer.reservedBufferSize)

/-- `can_handle_new_log` with a reference LSN that may be behind the reuse LSN. -/
def canHandleNewLog (buffer : LogGroupBuffer) (lsn : Nat) (totalLen : Int) (refReuseLsn : Nat) :
    Bool :=
  let endLsn := u64 (lsn + totalLen.toNat)
  let reuseLsn := min buffer.reuseLsn refReuseLsn
  if lsnIsValid lsn = false ∨ totalLen ≤ 0 ∨ lsnIsValid refReuseLsn = false then
    false
  else if lsn < buffer.startLsn then false
  else if u64 (reuseLsn + buffer.availableBufferSize) < endLsn then false
  else true

/-- `inc_update_readable_begin_lsn_`. -/
def raiseReadable (buffer : LogGroupBuffer) (lsn : Nat) : LogGroupBuffer :=
  { buffer with readableBeginLsn := max buffer.readableBeginLsn lsn }

/-- `gen_readable_begin_lsn_for_filling_`: what a fill up to `lsn` overwrites
is no longer readable. -/
def genReadableBeginLsnForFilling (buffer : LogGroupBuffer) (lsn : Nat) : Nat :=
  if buffer.reservedBufferSize ≤ lsn then lsn - buffer.reservedBufferSize else 0

/-- The checks in front of a fill of `len` bytes, and the new readable LSN. -/
def prepareFill (buffer : LogGroupBuffer) (lsn : Nat) (len : Int) :
    Except ObRet (Nat × LogGroupBuffer) :=
  let endLsn := u64 (lsn + len.toNat)
  if lsnIsValid lsn = false ∨ len ≤ 0 then .error .invalidArgument
  else if lsn < buffer.startLsn then .error .errUnexpected
  else if endLsn ≤ buffer.reuseLsn then .error .errUnexpected
  else if u64 (buffer.reuseLsn + buffer.availableBufferSize) < endLsn then
    .error .eagain
  else
    match buffer.getBufferPos lsn with
    | .error ret => .error ret
    | .ok startPos =>
      .ok (startPos, buffer.raiseReadable (buffer.genReadableBeginLsnForFilling endLsn))

/-- `fill_`. -/
def fillAt (buffer : LogGroupBuffer) (startPos : Nat) (data : Nat → UInt8) (dataLen : Nat) :
    LogGroupBuffer :=
  { buffer with
    dataBuf := RingCells.write buffer.reservedBufferSize buffer.dataBuf startPos
      data dataLen }

def fill (buffer : LogGroupBuffer) (lsn : Nat) (data : Nat → UInt8) (dataLen : Int) :
    ObRet × LogGroupBuffer :=
  match buffer.prepareFill lsn dataLen with
  | .error ret => (ret, buffer)
  | .ok (startPos, next) => (.success, next.fillAt startPos data dataLen.toNat)

/-- The checks are made for the body, which is cleared first. -/
def fillPaddingBody (buffer : LogGroupBuffer) (lsn : Nat) (data : Nat → UInt8)
    (dataLen logBodySize : Int) : ObRet × LogGroupBuffer :=
  match buffer.prepareFill lsn logBodySize with
  | .error ret => (ret, buffer)
  | .ok (startPos, next) =>
    (.success, (next.fillAt startPos (fun _ => paddingLogContentChar)
        logBodySize.toNat).fillAt startPos data dataLen.toNat)

def incUpdateReadableBeginLsn (buffer : LogGroupBuffer) (newLsn : Nat) :
    ObRet × LogGroupBuffer :=
  if lsnIsValid newLsn = false then (.invalidArgument, buffer)
  else (.success, buffer.raiseReadable newLsn)

def incUpdateReuseLsn (buffer : LogGroupBuffer) (newReuseLsn : Nat) :
    ObRet × LogGroupBuffer :=
  if lsnIsValid newReuseLsn = false then (.invalidArgument, buffer)
  else (.success, { buffer with reuseLsn := max buffer.reuseLsn newReuseLsn })

def truncate (buffer : LogGroupBuffer) (newLsn : Nat) : ObRet × LogGroupBuffer :=
  if lsnIsValid newLsn = false then (.invalidArgument, buffer)
  else if newLsn < buffer.startLsn then (.invalidArgument, buffer)
  else (.success, { buffer.raiseReadable newLsn with reuseLsn := newLsn })

/-- The pieces that `LogWriteBuf::push_back` makes of a range of the ring,
each a start position and a length. -/
def pushBack : Nat → Nat → Nat → List (Nat × Nat)
  | 0, _, _ => []
  | fuel + 1, start, len =>
    if len = 0 then []
    else (start, min len maxLogBufferSize) ::
      pushBack fuel (start + min len maxLogBufferSize) (len - min len maxLogBufferSize)

/-- `get_log_buf`: the pieces of the ring that hold a range of LSNs. -/
def getLogBuf (buffer : LogGroupBuffer) (lsn : Nat) (totalLen : Int) :
    Except ObRet (List (Nat × Nat)) :=
  if lsnIsValid lsn = false ∨ totalLen ≤ 0 then .error .invalidArgument
  else if lsn < buffer.startLsn then .error .invalidArgument
  else
    match buffer.getBufferPos lsn with
    | .error ret => .error ret
    | .ok startPos =>
      let groupBufTailLen := buffer.reservedBufferSize - startPos
      let firstPartLen := min groupBufTailLen totalLen.toNat
      .ok (pushBack firstPartLen startPos firstPartLen ++
        pushBack (totalLen.toNat - firstPartLen) 0 (totalLen.toNat - firstPartLen))

/-- The bytes that a piece of the ring holds. -/
def pieceBytes (buffer : LogGroupBuffer) (piece : Nat × Nat) : List UInt8 :=
  (List.range piece.2).map fun i => buffer.dataBuf (piece.1 + i)

/-- What `read_data` stores: the size and the bytes. -/
structure ReadOut where
  outReadSize : Nat
  buf : Nat → UInt8

/-- `read_data`.  When nothing behind `read_begin_lsn` has been flushed yet it
succeeds and leaves its output alone. -/
def readData (buffer : LogGroupBuffer) (readBeginLsn : Nat) (inReadSize : Int) :
    ObRet × Option ReadOut :=
  if lsnIsValid readBeginLsn = false ∨ inReadSize ≤ 0 then
    (.invalidArgument, none)
  else
    match buffer.getBufferPos readBeginLsn with
    | .error ret => (ret, none)
    | .ok startPos =>
      if readBeginLsn < buffer.readableBeginLsn then (.errOutOfLowerBound, none)
      else if readBeginLsn < buffer.reuseLsn then
        let realReadSize := min (buffer.reuseLsn - readBeginLsn) inReadSize.toNat
        (.success, some
          { outReadSize := realReadSize
            buf := RingCells.read buffer.reservedBufferSize buffer.dataBuf
              startPos realReadSize })
      else (.success, none)

end LogGroupBuffer

/-! Runs.  The buffer is observed together with the bytes that were filled. -/

inductive BufferOp
  | fill (lsn : Nat) (data : Nat → UInt8) (dataLen : Int)
  | fillPaddingBody (lsn : Nat) (data : Nat → UInt8) (dataLen logBodySize : Int)
  | incUpdateReuseLsn (newReuseLsn : Nat)
  | incUpdateReadableBeginLsn (newLsn : Nat)
  | truncate (newLsn : Nat)
  | readData (readBeginLsn : Nat) (inReadSize : Int)

/-- `filled` has the byte most recently filled at each LSN; `live` says that
this happened after the last truncation to an LSN at or below it. -/
structure BufferRun where
  buffer : LogGroupBuffer
  filled : Nat → Option UInt8
  live : Nat → Bool

/-- Record `len` bytes filled at `lsn`. -/
def BufferRun.note (run : BufferRun) (lsn : Nat) (data : Nat → UInt8) (len : Nat) : BufferRun :=
  { run with
    filled := fun l =>
      if lsn ≤ l ∧ l < lsn + len then some (data (l - lsn)) else run.filled l
    live := fun l => decide (lsn ≤ l ∧ l < lsn + len) || run.live l }

/-- One operation. -/
def BufferRun.apply (run : BufferRun) : BufferOp → ObRet × BufferRun
  | .fill lsn data dataLen =>
    match run.buffer.fill lsn data dataLen with
    | (.success, next) =>
      (.success, { run.note lsn data dataLen.toNat with buffer := next })
    | (ret, next) => (ret, { run with buffer := next })
  | .fillPaddingBody lsn data dataLen logBodySize =>
    match run.buffer.fillPaddingBody lsn data dataLen logBodySize with
    | (.success, next) =>
      (.success, { (run.note lsn (fun _ => paddingLogContentChar)
            logBodySize.toNat).note lsn data dataLen.toNat with
          buffer := next })
    | (ret, next) => (ret, { run with buffer := next })
  | .incUpdateReuseLsn newReuseLsn =>
    let out := run.buffer.incUpdateReuseLsn newReuseLsn
    (out.1, { run with buffer := out.2 })
  | .incUpdateReadableBeginLsn newLsn =>
    let out := run.buffer.incUpdateReadableBeginLsn newLsn
    (out.1, { run with buffer := out.2 })
  | .truncate newLsn =>
    match run.buffer.truncate newLsn with
    | (.success, next) =>
      (.success,
        { run with
          buffer := next
          live := fun l => run.live l && decide (l < newLsn) })
    | (ret, next) => (ret, { run with buffer := next })
  | .readData readBeginLsn inReadSize =>
    ((run.buffer.readData readBeginLsn inReadSize).1, run)

example (run : BufferRun) : (run.apply (.incUpdateReuseLsn (2 ^ 64 - 1))).1 = .invalidArgument := by
  simp only [BufferRun.apply, LogGroupBuffer.incUpdateReuseLsn]
  rfl

inductive BufferStep (Admits : BufferRun → BufferOp → Prop) :
    BufferRun → BufferOp × ObRet → BufferRun → Prop
  | apply (run : BufferRun) (op : BufferOp) (hadmits : Admits run op) :
      BufferStep Admits run (op, (run.apply op).1) (run.apply op).2

/-- LSNs are uint64 and lengths int64, as their types say. -/
def BufferOp.Typed : BufferOp → Prop
  | .fill lsn _ dataLen => lsn < uint64Modulus ∧ dataLen < 2 ^ 63
  | .fillPaddingBody lsn _ _ logBodySize => lsn < uint64Modulus ∧ logBodySize < 2 ^ 63
  | .incUpdateReuseLsn lsn | .incUpdateReadableBeginLsn lsn | .truncate lsn | .readData lsn _ =>
    lsn < uint64Modulus

/-- What the log's writers promise: fills start at or behind the reuse LSN, a
padding's data lies inside its body, and the reuse LSN passes only bytes that
were filled after the last truncation. -/
def FillsAhead (run : BufferRun) (op : BufferOp) : Prop :=
  op.Typed ∧ match op with
    | .fill lsn _ _ => run.buffer.reuseLsn ≤ lsn
    | .fillPaddingBody lsn _ dataLen logBodySize =>
      run.buffer.reuseLsn ≤ lsn ∧ dataLen ≤ logBodySize
    | .incUpdateReuseLsn newReuseLsn =>
      ∀ l, run.buffer.reuseLsn ≤ l → l < newReuseLsn → run.live l = true
    | _ => True

/-- Only the promise on the reuse LSN, and about bytes filled at any time. -/
def ReuseBehindFilled (run : BufferRun) (op : BufferOp) : Prop :=
  op.Typed ∧ ∀ newReuseLsn, op = .incUpdateReuseLsn newReuseLsn →
    ∀ l, run.buffer.startLsn ≤ l → l < newReuseLsn → run.filled l ≠ none

/-- Every byte that can be read is the one most recently filled at its LSN. -/
def ReadsExact (run : BufferRun) : Prop :=
  ∀ readBeginLsn inReadSize out,
    run.buffer.readData readBeginLsn inReadSize = (.success, some out) → ∀ i, i < out.outReadSize →
        run.filled (readBeginLsn + i) = some (out.buf i)

/-- The watermarks and the contents of the ring. -/
structure BufferInv (run : BufferRun) : Prop where
  reserved : run.buffer.reservedBufferSize = defaultGroupBufferSize
  available : run.buffer.availableBufferSize = defaultGroupBufferSize
  start_le_reuse : run.buffer.startLsn ≤ run.buffer.reuseLsn
  start_le_readable : run.buffer.startLsn ≤ run.buffer.readableBeginLsn
  reuse_lt : run.buffer.reuseLsn < uint64Modulus
  live_bounds : ∀ l, run.live l = true → run.buffer.startLsn ≤ l ∧
      l < run.buffer.reuseLsn + defaultGroupBufferSize ∧
      l < run.buffer.readableBeginLsn + defaultGroupBufferSize
  live_bytes : ∀ l, run.live l = true → run.buffer.readableBeginLsn ≤ l →
    run.filled l = some (run.buffer.dataBuf ((l - run.buffer.startLsn) % defaultGroupBufferSize))
  readable_live : ∀ l, run.buffer.readableBeginLsn ≤ l → l < run.buffer.reuseLsn → run.live l = true

variable {run : BufferRun}

theorem BufferInv.reads_exact (hinv : BufferInv run) : ReadsExact run := by
  intro readBeginLsn inReadSize out hread i hi
  unfold LogGroupBuffer.readData LogGroupBuffer.getBufferPos at hread
  split at hread
  · simp at hread
  rename_i hargs
  simp only [not_or] at hargs
  rw [if_neg hargs.1] at hread
  by_cases hstart : readBeginLsn < run.buffer.startLsn
  · simp [hstart] at hread
  by_cases hdist : 2 ^ 63 ≤ readBeginLsn - run.buffer.startLsn
  · rw [if_neg hstart, if_pos hdist] at hread
    simp at hread
  simp only [hstart, hdist, if_false] at hread
  by_cases hreadable : readBeginLsn < run.buffer.readableBeginLsn
  · simp [hreadable] at hread
  rw [if_neg hreadable] at hread
  by_cases hreuse : readBeginLsn < run.buffer.reuseLsn
  swap
  · simp [hreuse] at hread
  rw [if_pos hreuse] at hread
  simp only [Prod.mk.injEq, true_and, Option.some.injEq] at hread
  subst hread
  simp only [hinv.reserved] at hi ⊢
  have hlive := hinv.readable_live (readBeginLsn + i) (by omega) (by omega)
  -- the flushed part behind the readable LSN is not longer than the ring
  have hlen : min (run.buffer.reuseLsn - readBeginLsn) inReadSize.toNat ≤
      defaultGroupBufferSize := by
    have hlast := hinv.readable_live (run.buffer.reuseLsn - 1) (by omega) (by omega)
    have hbounds := hinv.live_bounds _ hlast
    omega
  rw [hinv.live_bytes _ hlive (by omega), RingCells.read_at hi hlen]
  congr 3
  omega

theorem BufferInv.raiseReadable (hinv : BufferInv run) (lsn : Nat) :
    BufferInv { run with buffer := run.buffer.raiseReadable lsn } := by
  have hle : run.buffer.readableBeginLsn ≤
      (run.buffer.raiseReadable lsn).readableBeginLsn := Nat.le_max_left _ _
  constructor
  · exact hinv.reserved
  · exact hinv.available
  · exact hinv.start_le_reuse
  · exact Nat.le_trans hinv.start_le_readable hle
  · exact hinv.reuse_lt
  · intro l hlive
    obtain ⟨h₁, h₂, h₃⟩ := hinv.live_bounds l hlive
    exact ⟨h₁, h₂, Nat.lt_of_lt_of_le h₃ (Nat.add_le_add_right hle _)⟩
  · intro l hlive hreadable
    exact hinv.live_bytes l hlive (Nat.le_trans hle hreadable)
  · intro l hreadable hreuse
    exact hinv.readable_live l (Nat.le_trans hle hreadable) hreuse

variable {lsn : Nat}

theorem BufferInv.fillAt (hinv : BufferInv run) {n : Nat}
    (data : Nat → UInt8) (hreuse : run.buffer.reuseLsn ≤ lsn)
    (hend : lsn + n ≤ run.buffer.reuseLsn + defaultGroupBufferSize)
    (hreadable : lsn + n ≤ run.buffer.readableBeginLsn + defaultGroupBufferSize) :
    BufferInv { run.note lsn data n with
      buffer := run.buffer.fillAt
        ((lsn - run.buffer.startLsn) % defaultGroupBufferSize) data n } := by
  have hstart := hinv.start_le_reuse
  have hsize : 0 < defaultGroupBufferSize := by decide
  constructor
  · exact hinv.reserved
  · exact hinv.available
  · exact hinv.start_le_reuse
  · exact hinv.start_le_readable
  · exact hinv.reuse_lt
  · intro l hlive
    by_cases hnew : lsn ≤ l ∧ l < lsn + n
    · refine ⟨?_, ?_, ?_⟩
      · exact Nat.le_trans hstart (Nat.le_trans hreuse hnew.1)
      · exact Nat.lt_of_lt_of_le hnew.2 hend
      · exact Nat.lt_of_lt_of_le hnew.2 hreadable
    · simp only [BufferRun.note, hnew, decide_false, Bool.false_or] at hlive
      exact hinv.live_bounds l hlive
  · intro l hlive hle
    simp only [LogGroupBuffer.fillAt, hinv.reserved] at hle ⊢
    by_cases hnew : lsn ≤ l ∧ l < lsn + n
    · have hcell : l - run.buffer.startLsn = (lsn - run.buffer.startLsn) + (l - lsn) := by omega
      simp only [BufferRun.note, if_pos hnew]
      rw [hcell, RingCells.write_at (by omega) (by omega)]
    simp only [BufferRun.note, hnew, decide_false, Bool.false_or] at hlive
    simp only [BufferRun.note, if_neg hnew]
    have hbounds := hinv.live_bounds l hlive
    rw [hinv.live_bytes l hlive hle, RingCells.write_other (Nat.mod_lt _ hsize) (by omega)]
    intro i hi hcell
    -- both LSNs lie in one window of the ring's size
    have hsame : lsn - run.buffer.startLsn + i = l - run.buffer.startLsn := by
      by_cases hside : lsn ≤ l
      · exact RingCells.eq_of_mod_eq (l := lsn - run.buffer.startLsn)
          (by omega) (by omega) (by omega) (by omega) hcell
      · exact RingCells.eq_of_mod_eq (l := l - run.buffer.startLsn)
          (by omega) (by omega) (by omega) (by omega) hcell
    omega
  · intro l hle hlt
    have hold := hinv.readable_live l hle hlt
    simp only [BufferRun.note, hold, Bool.or_true]

variable {buffer : LogGroupBuffer}

/-- The checks that `fill` and `fill_padding_body` share. -/
theorem prepareFill_ok {next : LogGroupBuffer} {pos : Nat} {len : Int}
    (h : buffer.prepareFill lsn len = .ok (pos, next)) :
    (buffer.startLsn ≤ lsn ∧ lsn - buffer.startLsn < 2 ^ 63 ∧
      buffer.reuseLsn < u64 (lsn + len.toNat) ∧
      u64 (lsn + len.toNat) ≤ u64 (buffer.reuseLsn + buffer.availableBufferSize)) ∧
      pos = (lsn - buffer.startLsn) % buffer.reservedBufferSize ∧
      next = buffer.raiseReadable
        (buffer.genReadableBeginLsnForFilling (u64 (lsn + len.toNat))) := by
  unfold LogGroupBuffer.prepareFill LogGroupBuffer.getBufferPos at h
  by_cases hargs : lsnIsValid lsn = false ∨ len ≤ 0
  · simp [hargs] at h
  by_cases hstart : lsn < buffer.startLsn
  · simp [hargs, hstart] at h
  by_cases hreuse : u64 (lsn + len.toNat) ≤ buffer.reuseLsn
  · simp [hargs, hstart, hreuse] at h
  by_cases hend : u64 (buffer.reuseLsn + buffer.availableBufferSize) < u64 (lsn + len.toNat)
  · simp [hargs, hstart, hreuse, hend] at h
  have hvalid : ¬ lsnIsValid lsn = false := fun hbad => hargs (.inl hbad)
  rw [if_neg hargs, if_neg hstart, if_neg hreuse, if_neg hend, if_neg hvalid, if_neg hstart] at h
  by_cases hdist : 2 ^ 63 ≤ lsn - buffer.startLsn
  · rw [if_pos hdist] at h
    simp at h
  simp only [hdist, if_false, Except.ok.injEq, Prod.mk.injEq] at h
  exact ⟨⟨Nat.not_lt.mp hstart, Nat.not_le.mp hdist, Nat.not_le.mp hreuse, Nat.not_lt.mp hend⟩,
    h.1.symm, h.2.symm⟩

theorem le_genReadable (buffer : LogGroupBuffer) (lsn : Nat) :
    lsn ≤ buffer.genReadableBeginLsnForFilling lsn + buffer.reservedBufferSize := by
  unfold LogGroupBuffer.genReadableBeginLsnForFilling
  split <;> omega

/-- A block that passes the checks fits into the ring behind the reuse LSN.  An end that
wraps around is below the start LSN, and a limit that does is below the reuse LSN. -/
theorem BufferInv.prepareFill (hinv : BufferInv run) {pos : Nat} {len : Int} {next : LogGroupBuffer}
    (hlen : len < 2 ^ 63) (h : run.buffer.prepareFill lsn len = .ok (pos, next)) :
    BufferInv { run with buffer := next } ∧
      next.startLsn = run.buffer.startLsn ∧ next.reuseLsn = run.buffer.reuseLsn ∧
      pos = (lsn - run.buffer.startLsn) % defaultGroupBufferSize ∧
      lsn + len.toNat ≤ next.reuseLsn + defaultGroupBufferSize ∧
      lsn + len.toNat ≤ next.readableBeginLsn + defaultGroupBufferSize := by
  obtain ⟨⟨hstart, hdist, hbehind, hend⟩, hpos, hnext⟩ := prepareFill_ok h
  have hreuse := hinv.start_le_reuse
  have hlt := hinv.reuse_lt
  have hsize : defaultGroupBufferSize < uint64Modulus := by decide
  have hmodulus : uint64Modulus = 2 ^ 64 := rfl
  have hnowrap : lsn + len.toNat < uint64Modulus := by
    by_contra hwrap
    have hrest : u64 (lsn + len.toNat) = lsn + len.toNat - uint64Modulus := by
      rw [u64, Nat.mod_eq_sub_mod (by omega), Nat.mod_eq_of_lt (by omega)]
    omega
  have hlimit : run.buffer.reuseLsn + defaultGroupBufferSize < uint64Modulus := by
    by_contra hwrap
    have hrest : u64 (run.buffer.reuseLsn + defaultGroupBufferSize) =
        run.buffer.reuseLsn + defaultGroupBufferSize - uint64Modulus := by
      rw [u64, Nat.mod_eq_sub_mod (by omega), Nat.mod_eq_of_lt (by omega)]
    rw [hinv.available] at hend
    omega
  rw [hinv.available, u64_eq_of_lt hlimit, u64_eq_of_lt hnowrap] at hend
  rw [hinv.reserved] at hpos
  subst hnext
  refine ⟨hinv.raiseReadable _, rfl, rfl, hpos, hend, ?_⟩
  have hgen := le_genReadable run.buffer (lsn + len.toNat)
  rw [hinv.reserved] at hgen
  rw [u64_eq_of_lt hnowrap]
  have hmax : run.buffer.genReadableBeginLsnForFilling (lsn + len.toNat) ≤
      (run.buffer.raiseReadable (run.buffer.genReadableBeginLsnForFilling
        (lsn + len.toNat))).readableBeginLsn := Nat.le_max_right _ _
  omega

theorem prepareFill_error {len : Int} {ret : ObRet} (h : buffer.prepareFill lsn len = .error ret) :
    ret ≠ .success := by
  unfold LogGroupBuffer.prepareFill LogGroupBuffer.getBufferPos at h
  dsimp only at h
  rintro rfl
  split_ifs at h <;> simp at h

variable {data : Nat → UInt8} {dataLen : Int}

section

variable (hinv : BufferInv run)

include hinv

theorem BufferInv.fill (hadmits : FillsAhead run (.fill lsn data dataLen)) :
    BufferInv (run.apply (.fill lsn data dataLen)).2 := by
  obtain ⟨⟨-, hlen⟩, hreuse⟩ := hadmits
  simp only [BufferRun.apply, LogGroupBuffer.fill]
  cases hprepare : run.buffer.prepareFill lsn dataLen with
  | error ret =>
    have hret := prepareFill_error hprepare
    cases ret with
    | success => exact absurd rfl hret
    | _ => exact hinv
  | ok out =>
    obtain ⟨pos, next⟩ := out
    obtain ⟨hnext, hstart, hreuse', rfl, hend, hreadable⟩ :=
      hinv.prepareFill hlen hprepare
    have hfill := hnext.fillAt data (by rw [hreuse']; exact hreuse) hend hreadable
    rw [hstart] at hfill
    exact hfill

theorem BufferInv.fillPaddingBody {logBodySize : Int}
    (hadmits : FillsAhead run (.fillPaddingBody lsn data dataLen logBodySize)) :
    BufferInv (run.apply (.fillPaddingBody lsn data dataLen logBodySize)).2 := by
  obtain ⟨⟨-, hbody⟩, hreuse, hlen⟩ := hadmits
  simp only [BufferRun.apply, LogGroupBuffer.fillPaddingBody]
  cases hprepare : run.buffer.prepareFill lsn logBodySize with
  | error ret =>
    have hret := prepareFill_error hprepare
    cases ret with
    | success => exact absurd rfl hret
    | _ => exact hinv
  | ok out =>
    obtain ⟨pos, next⟩ := out
    obtain ⟨hnext, hstart, hreuse', rfl, hend, hreadable⟩ :=
      hinv.prepareFill hbody hprepare
    have hle : next.reuseLsn ≤ lsn := by rw [hreuse']; exact hreuse
    have hclear := hnext.fillAt (fun _ => paddingLogContentChar) hle hend hreadable
    have hfill := hclear.fillAt data (n := dataLen.toNat) hle
      (by change _ ≤ next.reuseLsn + _; omega)
      (by change _ ≤ next.readableBeginLsn + _; omega)
    rw [← hstart]
    exact hfill

theorem BufferInv.incUpdateReuseLsn {newReuseLsn : Nat}
    (hadmits : FillsAhead run (.incUpdateReuseLsn newReuseLsn)) :
    BufferInv (run.apply (.incUpdateReuseLsn newReuseLsn)).2 := by
  obtain ⟨hlsn, hlive⟩ := hadmits
  simp only [BufferRun.apply, LogGroupBuffer.incUpdateReuseLsn]
  split
  · exact hinv
  have hle : run.buffer.reuseLsn ≤ max run.buffer.reuseLsn newReuseLsn :=
    Nat.le_max_left _ _
  constructor
  · exact hinv.reserved
  · exact hinv.available
  · exact Nat.le_trans hinv.start_le_reuse hle
  · exact hinv.start_le_readable
  · exact Nat.max_lt.mpr ⟨hinv.reuse_lt, hlsn⟩
  · intro l hl
    obtain ⟨h₁, h₂, h₃⟩ := hinv.live_bounds l hl
    exact ⟨h₁, Nat.lt_of_lt_of_le h₂ (Nat.add_le_add_right hle _), h₃⟩
  · exact hinv.live_bytes
  · intro l hreadable hreuse
    change l < max run.buffer.reuseLsn newReuseLsn at hreuse
    by_cases hold : l < run.buffer.reuseLsn
    · exact hinv.readable_live l hreadable hold
    · exact hlive l (by omega) (by omega)

theorem BufferInv.truncate {newLsn : Nat} (hlsn : newLsn < uint64Modulus) :
    BufferInv (run.apply (.truncate newLsn)).2 := by
  simp only [BufferRun.apply, LogGroupBuffer.truncate]
  by_cases hvalid : lsnIsValid newLsn = false
  · rw [if_pos hvalid]
    exact hinv
  by_cases hstart : newLsn < run.buffer.startLsn
  · rw [if_neg hvalid, if_pos hstart]
    exact hinv
  rw [if_neg hvalid, if_neg hstart]
  have hraise := hinv.raiseReadable newLsn
  constructor
  · exact hinv.reserved
  · exact hinv.available
  · exact Nat.not_lt.mp hstart
  · exact hraise.start_le_readable
  · exact hlsn
  · intro l hl
    simp only [Bool.and_eq_true, decide_eq_true_eq] at hl
    obtain ⟨h₁, -, h₃⟩ := hraise.live_bounds l hl.1
    exact ⟨h₁, Nat.lt_of_lt_of_le hl.2 (Nat.le_add_right _ _), h₃⟩
  · intro l hl hle
    simp only [Bool.and_eq_true, decide_eq_true_eq] at hl
    change max run.buffer.readableBeginLsn newLsn ≤ l at hle
    omega
  · intro l hle hlt
    change max run.buffer.readableBeginLsn newLsn ≤ l at hle
    change l < newLsn at hlt
    omega

end

theorem BufferInv.step {next : BufferRun} {event : BufferOp × ObRet}
    (hinv : BufferInv run) (hstep : BufferStep FillsAhead run event next) :
    BufferInv next := by
  cases hstep with
  | apply op hadmits =>
    cases op with
    | fill => exact hinv.fill hadmits
    | fillPaddingBody =>
      exact hinv.fillPaddingBody hadmits
    | incUpdateReuseLsn => exact hinv.incUpdateReuseLsn hadmits
    | incUpdateReadableBeginLsn newLsn =>
      simp only [BufferRun.apply, LogGroupBuffer.incUpdateReadableBeginLsn]
      split
      · exact hinv
      · exact hinv.raiseReadable newLsn
    | truncate => exact hinv.truncate hadmits.1
    | readData => exact hinv

/-- A fresh buffer. -/
def BufferRun.start (buffer : LogGroupBuffer) : BufferRun where
  buffer := buffer
  filled := fun _ => none
  live := fun _ => false

theorem BufferInv.start {startLsn : Nat} (hinit : LogGroupBuffer.init startLsn = some buffer)
    (hlsn : startLsn < uint64Modulus) : BufferInv (BufferRun.start buffer) := by
  unfold LogGroupBuffer.init at hinit
  split at hinit
  · simp at hinit
  simp only [Option.some.injEq] at hinit
  subst hinit
  constructor
  · rfl
  · rfl
  · exact le_rfl
  · exact le_rfl
  · exact hlsn
  · simp [BufferRun.start]
  · simp [BufferRun.start]
  · intro l hle hlt
    exact absurd hlt (Nat.not_lt.mpr hle)

/-- Along every run of well-placed fills, what `read_data` returns are the
bytes most recently filled at the LSNs it was asked for. -/
theorem group_buffer_reads_exact {startLsn : Nat} {buffer : LogGroupBuffer}
    {events : List (BufferOp × ObRet)} {run : BufferRun}
    (hinit : LogGroupBuffer.init startLsn = some buffer) (hlsn : startLsn < uint64Modulus)
    (hrun : Execution (BufferStep FillsAhead) (BufferRun.start buffer) events run) :
    ReadsExact run :=
  (hrun.invariant (P := BufferInv) (BufferInv.start hinit hlsn)
    (fun _ _ _ hinv hstep => hinv.step hstep)).reads_exact

/-- The state after a list of operations. -/
def BufferRun.applyAll (run : BufferRun) (ops : List BufferOp) : BufferRun :=
  ops.foldl (fun run op => (run.apply op).2) run

/-- Every operation of the list is admitted when its turn comes. -/
def AdmitsAll (Admits : BufferRun → BufferOp → Prop) (run : BufferRun) :
    List BufferOp → Prop
  | [] => True
  | op :: ops => Admits run op ∧ AdmitsAll Admits (run.apply op).2 ops

theorem execution_applyAll {Admits : BufferRun → BufferOp → Prop} {start : BufferRun}
    {events : List (BufferOp × ObRet)} (hrun : Execution (BufferStep Admits) start events run)
    {ops : List BufferOp} (hops : AdmitsAll Admits run ops) :
    ∃ events', Execution (BufferStep Admits) start events' (run.applyAll ops) := by
  induction ops generalizing run events with
  | nil => exact ⟨events, hrun⟩
  | cons op ops ih => exact ih (hrun.snoc (.apply run op hops.1)) hops.2

theorem apply_fill_of_success (h : (run.buffer.fill lsn data dataLen).1 = .success) :
    (run.apply (.fill lsn data dataLen)).2 =
      { run.note lsn data dataLen.toNat with
        buffer := (run.buffer.fill lsn data dataLen).2 } := by
  cases hfill : run.buffer.fill lsn data dataLen with
  | mk =>
    rw [hfill] at h
    subst h
    simp only [BufferRun.apply, hfill]

theorem filled_fill_ne_none {l : Nat} (h : (run.buffer.fill lsn data dataLen).1 = .success) :
    (run.apply (.fill lsn data dataLen)).2.filled l ≠ none ↔
      (lsn ≤ l ∧ l < lsn + dataLen.toNat) ∨ run.filled l ≠ none := by
  rw [apply_fill_of_success h]
  simp only [BufferRun.note]
  split_ifs with hbody <;> simp [hbody]

theorem apply_fillPaddingBody_of_success {logBodySize : Int}
    (h : (run.buffer.fillPaddingBody lsn data dataLen logBodySize).1 = .success) :
    (run.apply (.fillPaddingBody lsn data dataLen logBodySize)).2 =
      { (run.note lsn (fun _ => paddingLogContentChar)
          logBodySize.toNat).note lsn data dataLen.toNat with
        buffer :=
          (run.buffer.fillPaddingBody lsn data dataLen logBodySize).2 } := by
  cases hfill : run.buffer.fillPaddingBody lsn data dataLen logBodySize with
  | mk =>
    rw [hfill] at h
    subst h
    simp only [BufferRun.apply, hfill]

@[simp]
theorem apply_truncate_filled (run : BufferRun) (newLsn : Nat) :
    (run.apply (.truncate newLsn)).2.filled = run.filled := by
  simp only [BufferRun.apply]
  split <;> rfl

@[simp]
theorem apply_incUpdateReuseLsn_filled (run : BufferRun) (newReuseLsn : Nat) :
    (run.apply (.incUpdateReuseLsn newReuseLsn)).2.filled = run.filled :=
  rfl

/-- A fill of the last LSNs there are, its flush and a read of the flushed bytes. -/
theorem group_buffer_reads_exact_flushed : ∃ buffer events run,
      LogGroupBuffer.init (2 ^ 64 - 5000000) = some buffer ∧
      Execution (BufferStep FillsAhead) (BufferRun.start buffer) events run ∧
      (run.buffer.readData (2 ^ 64 - 4999998) 10).2.map (fun out => (out.outReadSize, out.buf 0)) =
        some (3, 7) ∧
      ReadsExact run := by
  let buffer := (LogGroupBuffer.init (2 ^ 64 - 5000000)).get (by decide)
  have hinit : LogGroupBuffer.init (2 ^ 64 - 5000000) = some buffer := (some_get _).symm
  have hops : AdmitsAll FillsAhead (BufferRun.start buffer)
      [.fill (2 ^ 64 - 5000000) (fun _ => 7) 5, .incUpdateReuseLsn (2 ^ 64 - 4999995)] := by
    refine ⟨⟨⟨by decide, by decide⟩, by decide⟩,
      ⟨show _ < _ by decide, fun l hle hlt => ?_⟩, trivial⟩
    have hreuse : ((BufferRun.start buffer).apply
        (.fill (2 ^ 64 - 5000000) (fun _ => 7) 5)).2.buffer.reuseLsn = 2 ^ 64 - 5000000 := by decide
    rw [hreuse] at hle
    rw [apply_fill_of_success (by decide)]
    have hin : 2 ^ 64 - 5000000 ≤ l ∧ l < 2 ^ 64 - 5000000 + (5 : Int).toNat := ⟨hle, hlt⟩
    simp only [BufferRun.note, hin, and_self, decide_true, Bool.true_or]
  obtain ⟨events, hrun⟩ := execution_applyAll .refl hops
  exact ⟨buffer, events, _, hinit, hrun, by decide,
    group_buffer_reads_exact hinit (by decide) hrun⟩

theorem not_readsExact (readBeginLsn : Nat) (inReadSize : Int)
    (hret : (run.buffer.readData readBeginLsn inReadSize).1 = .success)
    (hsome : (run.buffer.readData readBeginLsn inReadSize).2.isSome = true)
    (hpos : 0 < ((run.buffer.readData readBeginLsn inReadSize).2.get hsome).outReadSize)
    (hne : run.filled readBeginLsn ≠
      some (((run.buffer.readData readBeginLsn inReadSize).2.get hsome).buf 0)) :
    ¬ ReadsExact run := by
  intro hexact
  have hread : run.buffer.readData readBeginLsn inReadSize =
      (.success, some ((run.buffer.readData readBeginLsn inReadSize).2.get hsome)) :=
    Prod.ext hret (some_get hsome).symm
  exact hne (hexact readBeginLsn inReadSize _ hread 0 hpos)

/-- Operations after which a read from a buffer started at LSN 0 is not exact,
although the reuse LSN has passed filled bytes only. -/
def ReadsStale (ops : List BufferOp) : Prop :=
  ∃ buffer, LogGroupBuffer.init 0 = some buffer ∧
    AdmitsAll ReuseBehindFilled (BufferRun.start buffer) ops ∧
      ¬ ReadsExact ((BufferRun.start buffer).applyAll ops)

theorem admits_fill (htyped : lsn < uint64Modulus ∧ dataLen < 2 ^ 63) :
    ReuseBehindFilled run (.fill lsn data dataLen) :=
  ⟨htyped, by simp⟩

theorem admits_reuse {newReuseLsn : Nat} (hlsn : newReuseLsn < uint64Modulus)
    (hfilled : ∀ l, run.buffer.startLsn ≤ l → l < newReuseLsn → run.filled l ≠ none) :
    ReuseBehindFilled run (.incUpdateReuseLsn newReuseLsn) := by
  refine ⟨hlsn, ?_⟩
  rintro _ ⟨rfl⟩
  exact hfilled

/-- A fill that starts below the reuse LSN writes over bytes one round ahead. -/
def fillBelowReuse : List BufferOp :=
  [.fill 0 (fun _ => 1) 10, .incUpdateReuseLsn 10, .fill 4194304 (fun _ => 2) 5,
    .fill 0 (fun _ => 3) 12, .fill 12 (fun _ => 4) 4194292,
    .incUpdateReuseLsn 4194309]

theorem readsStale_fillBelowReuse : ReadsStale fillBelowReuse := by
  refine ⟨(LogGroupBuffer.init 0).get (by decide), (some_get _).symm,
    ⟨admits_fill (by decide), admits_reuse (by decide) fun l _ hlt => ?_,
      admits_fill (by decide), admits_fill (by decide), admits_fill (by decide),
      admits_reuse (by decide) fun l _ hlt => ?_,
      trivial⟩,
    not_readsExact 4194304 5 (by decide) (by decide) (by decide) (by decide)⟩
  · exact (filled_fill_ne_none (by decide)).mpr (.inl ⟨Nat.zero_le l, hlt⟩)
  · rw [filled_fill_ne_none (by decide), filled_fill_ne_none (by decide),
      filled_fill_ne_none (by decide)]
    omega

/-- Bytes filled before a truncation are written over after it. -/
def refillAfterTruncate : List BufferOp :=
  [.fill 0 (fun _ => 1) 10, .incUpdateReuseLsn 10, .fill 10 (fun _ => 2) 4194304,
    .truncate 0, .fill 0 (fun _ => 3) 10, .incUpdateReuseLsn 4194314]

theorem readsStale_refillAfterTruncate : ReadsStale refillAfterTruncate := by
  refine ⟨(LogGroupBuffer.init 0).get (by decide), (some_get _).symm,
    ⟨admits_fill (by decide), admits_reuse (by decide) fun l _ hlt => ?_,
      admits_fill (by decide), ⟨show _ < _ by decide, by simp⟩, admits_fill (by decide),
      admits_reuse (by decide) fun l _ hlt => ?_,
      trivial⟩,
    not_readsExact 4194304 5 (by decide) (by decide) (by decide) (by decide)⟩
  · exact (filled_fill_ne_none (by decide)).mpr (.inl ⟨Nat.zero_le l, hlt⟩)
  · rw [filled_fill_ne_none (by decide), apply_truncate_filled, filled_fill_ne_none (by decide)]
    omega

/-- The data of a padding may be longer than the body that was checked. -/
def longPaddingData : List BufferOp :=
  [.fill 0 (fun _ => 1) 10, .incUpdateReuseLsn 10, .fill 10 (fun _ => 2) 4194299,
    .fillPaddingBody 4194309 (fun _ => 9) 20 5, .incUpdateReuseLsn 4194314]

theorem readsStale_longPaddingData : ReadsStale longPaddingData := by
  refine ⟨(LogGroupBuffer.init 0).get (by decide), (some_get _).symm,
    ⟨admits_fill (by decide), admits_reuse (by decide) fun l _ hlt => ?_,
      admits_fill (by decide), ⟨⟨by decide, by decide⟩, by simp⟩,
      admits_reuse (by decide) fun l _ hlt => ?_, trivial⟩,
    not_readsExact 10 1 (by decide) (by decide) (by decide) (by decide)⟩
  · exact (filled_fill_ne_none (by decide)).mpr (.inl ⟨Nat.zero_le l, hlt⟩)
  rw [apply_fillPaddingBody_of_success (by decide)]
  simp only [BufferRun.note]
  split_ifs with hdata hclear
  · simp
  · simp
  rw [filled_fill_ne_none (by decide), apply_incUpdateReuseLsn_filled,
    filled_fill_ne_none (by decide)]
  omega

/-- Runs that read stale bytes when only the reuse LSN is promised to stay
behind filled bytes. -/
theorem group_buffer_reads_stale :
    [fillBelowReuse, refillAfterTruncate, longPaddingData].Forall fun ops =>
      ∃ buffer events, LogGroupBuffer.init 0 = some buffer ∧
        Execution (BufferStep ReuseBehindFilled) (BufferRun.start buffer) events
          ((BufferRun.start buffer).applyAll ops) ∧
        ¬ ReadsExact ((BufferRun.start buffer).applyAll ops) := by
  have hrun : ∀ ops, ReadsStale ops → ∃ buffer events,
      LogGroupBuffer.init 0 = some buffer ∧
        Execution (BufferStep ReuseBehindFilled) (BufferRun.start buffer) events
          ((BufferRun.start buffer).applyAll ops) ∧
        ¬ ReadsExact ((BufferRun.start buffer).applyAll ops) := by
    rintro ops ⟨buffer, hinit, hops, hstale⟩
    obtain ⟨events, hrun⟩ := execution_applyAll .refl hops
    exact ⟨buffer, events, hinit, hrun, hstale⟩
  exact ⟨hrun _ readsStale_fillBelowReuse, hrun _ readsStale_refillAfterTruncate,
    hrun _ readsStale_longPaddingData⟩

end SeekDB
