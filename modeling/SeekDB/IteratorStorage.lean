/-
`IteratorStorage`: the read buffer of a log iterator and the window of LSNs it
holds. A read moves the aligned tail of the window to the head of the buffer, asks
the storage for what follows it, and moves the window only if that succeeds.
-/
import SeekDB.ByteMemory
import SeekDB.Execution
import SeekDB.PalfDefine

namespace SeekDB

open ByteMemory

def logDioAlignSize : Nat := 4 * 1024

def logCacheAlignSize : Nat := 64 * 1024

def lowerAlign (n align : Nat) : Nat := n / align * align

def upperAlign (n align : Nat) : Nat := (n + align - 1) / align * align

/-- The answer of the storage: `len` bytes of the log, or an error after it has
written any bytes to the place it was given. -/
inductive StorageRead
  | done (len : Nat)
  | failed (ret : ObRet) (written : List UInt8)

/-- A call of `pread` and what it meets: the end of the file, the memory that an
allocation gives, and the answer of the storage. -/
structure PreadCall where
  pos : Int
  inReadSize : Int
  fileEndLsn : Nat
  fresh : Option (Nat → UInt8)
  storage : StorageRead

structure IteratorStorage where
  startLsn : Nat
  endLsn : Nat
  readBuf : Nat → UInt8
  /-- Zero while there is no buffer. -/
  bufLen : Nat
  isMemoryStorage : Bool
  isInited : Bool

namespace IteratorStorage

def init (startLsn : Nat) (isMemoryStorage : Bool) : IteratorStorage :=
  ⟨startLsn, startLsn, fun _ => 0, 0, isMemoryStorage, true⟩

variable (s : IteratorStorage) (log : Nat → UInt8)

def reuse (startLsn : Nat) : IteratorStorage := { s with startLsn, endLsn := startLsn }

def getValidDataLen : Nat := s.endLsn - s.startLsn

def validTailPartSize (pos : Nat) : Nat := lowerAlign (s.getValidDataLen - pos) logDioAlignSize

/-- `do_memove_`: the destination after the tail has been copied. -/
def doMemove (dst : Nat → UInt8) (pos : Nat) : Nat → UInt8 :=
  if s.bufLen = 0 then dst else store dst 0 (segment s.readBuf pos (s.validTailPartSize pos))

def ensureMemoryLayoutCorrect (pos inReadSize : Nat) (fresh : Option (Nat → UInt8)) :
    Option (Nat × IteratorStorage) :=
  if s.isMemoryStorage then some (0, s)
  else if s.bufLen < inReadSize + logDioAlignSize + logCacheAlignSize then
    fresh.map fun buf => (s.validTailPartSize pos,
      { s with
        readBuf := s.doMemove buf pos
        bufLen := upperAlign inReadSize logDioAlignSize + logDioAlignSize + logCacheAlignSize })
  else some (s.validTailPartSize pos, { s with readBuf := s.doMemove s.readBuf pos })

/-- A memory storage hands out a pointer to its own bytes instead of writing them;
the buffer then reads the same. -/
def readDataFromStorage (pos inReadSize : Nat) (call : PreadCall) :
    Except ObRet Nat × IteratorStorage :=
  match s.ensureMemoryLayoutCorrect pos inReadSize call.fresh with
  | none => (.error .allocateMemoryFailed, s)
  | some (remain, s) =>
    if inReadSize = remain then (.error .errUnexpected, s)
    else match call.storage with
      | .failed ret written =>
        (.error ret, if s.isMemoryStorage then s
          else { s with readBuf := store s.readBuf remain written })
      | .done len =>
        (.ok (len + remain), { s with
          readBuf := store s.readBuf remain (segment log (s.startLsn + pos + remain) len)
          bufLen := if s.isMemoryStorage then len else s.bufLen })

/-- `MIN` compares an int64 with the uint64 difference of two LSNs, so both are taken
as unsigned; the smaller one is stored as an int64. -/
def realInReadSize (call : PreadCall) : Int :=
  (min (call.inReadSize % 2 ^ 64) ((call.fileEndLsn - (s.startLsn + call.pos)) % 2 ^ 64)).bmod
    (2 ^ 64)

def pread (call : PreadCall) : ObRet × IteratorStorage :=
  if s.isInited = false then (.notInit, s)
  else if call.pos < 0 ∨ s.realInReadSize call < 0 then (.invalidArgument, s)
  else if (s.getValidDataLen : Int) < call.pos then (.errUnexpected, s)
  else if s.realInReadSize call = 0 then (.iterEnd, s)
  else match s.readDataFromStorage log call.pos.toNat (s.realInReadSize call).toNat call with
    | (.error ret, next) => (ret, next)
    | (.ok outReadSize, next) =>
      let startLsn := s.startLsn + call.pos.toNat
      (.success, { next with startLsn, endLsn := startLsn + outReadSize })

/-- The buffer holds the bytes of the window. -/
def Agrees : Prop :=
  ∀ i, i < s.endLsn - s.startLsn → s.readBuf i = log (s.startLsn + i)

structure Sound : Prop where
  agrees : s.Agrees log
  buffered : s.isMemoryStorage = false → s.bufLen = 0 → s.startLsn = s.endLsn

/-- The call is not refused and has a window whose tail it moves. -/
def Moves (call : PreadCall) : Prop :=
  s.isMemoryStorage = false ∧ s.startLsn ≠ s.endLsn ∧ s.isInited = true ∧
    0 ≤ call.pos ∧ call.pos ≤ s.getValidDataLen ∧ 0 < s.realInReadSize call ∧
    (call.fresh = none →
      (s.realInReadSize call).toNat + logDioAlignSize + logCacheAlignSize ≤ s.bufLen)

/-- The storage answers a call that gets to it with more to read than the tail. -/
def Served (call : PreadCall) : Prop :=
  s.Moves call → (∃ len, call.storage = .done len) ∧
    (s.realInReadSize call).toNat ≠ s.validTailPartSize call.pos.toNat

variable {s log} {next : IteratorStorage} {pos inReadSize remain : Nat} {call : PreadCall}
  {fresh : Option (Nat → UInt8)} {mem : Nat → UInt8}

theorem Sound.of_empty (h : s.startLsn = s.endLsn) : s.Sound log :=
  ⟨fun i hi => absurd hi (by omega), fun _ _ => h⟩

/-- Bytes stored behind a tail that is in place. -/
theorem store_segment {base len i : Nat} (htail : ∀ i, i < remain → mem i = log (base + i))
    (hi : i < len + remain) :
    store mem remain (segment log (base + remain) len) i = log (base + i) := by
  rcases Nat.lt_or_ge i remain with hlt | hge
  · rw [store_other (.inl hlt), htail i hlt]
  · obtain ⟨j, rfl⟩ := Nat.exists_eq_add_of_le hge
    rw [store_at (by simp; omega)]
    simp [ByteMemory.segment, Nat.add_assoc]

/-- The moved tail starts at `pos` of the window, whether it overlaps itself or not. -/
theorem Sound.doMemove_eq (h : s.Sound log) (hdisk : s.isMemoryStorage = false)
    (dst : Nat → UInt8) {i : Nat} (hi : i < s.validTailPartSize pos) :
    s.doMemove dst pos i = log (s.startLsn + pos + i) := by
  have hlen : s.validTailPartSize pos ≤ s.endLsn - s.startLsn - pos := Nat.div_mul_le_self _ _
  have hbuf : s.bufLen ≠ 0 := fun hzero => by
    have hempty := h.buffered hdisk hzero
    omega
  have hcopy : store dst 0 (segment s.readBuf (pos + 0) (s.validTailPartSize pos)) i =
      s.readBuf (pos + i) := store_segment (fun _ hlt => absurd hlt (Nat.not_lt_zero _)) (by omega)
  rw [Nat.add_zero] at hcopy
  rw [doMemove, if_neg hbuf, hcopy, h.agrees _ (by omega), Nat.add_assoc]

/-- After the layout step the buffer starts with the tail; the window is still the old one. -/
theorem Sound.layout (h : s.Sound log) (hsize : 0 < inReadSize)
    (hlayout : s.ensureMemoryLayoutCorrect pos inReadSize fresh = some (remain, next)) :
    (∀ i, i < remain → next.readBuf i = log (s.startLsn + pos + i)) ∧
      next.startLsn = s.startLsn ∧ next.endLsn = s.endLsn ∧
      (next = s ∧ remain = 0 ∧ s.isMemoryStorage = true ∨
        0 < next.bufLen ∧ remain = s.validTailPartSize pos ∧ s.isMemoryStorage = false) := by
  unfold ensureMemoryLayoutCorrect at hlayout
  have hcache : 0 < logCacheAlignSize := by decide
  split_ifs at hlayout with hmemory hlen
  · obtain ⟨rfl, rfl⟩ := Prod.mk.inj (Option.some.inj hlayout)
    exact ⟨fun i hi => absurd hi i.not_lt_zero, rfl, rfl, .inl ⟨rfl, rfl, hmemory⟩⟩
  · have hdisk := Bool.eq_false_iff.mpr hmemory
    obtain ⟨buf, -, heq⟩ := Option.map_eq_some_iff.mp hlayout
    obtain ⟨rfl, rfl⟩ := Prod.mk.inj heq
    exact ⟨fun i hi => h.doMemove_eq hdisk buf hi, rfl, rfl,
      .inr ⟨by dsimp only; omega, rfl, hdisk⟩⟩
  · have hdisk := Bool.eq_false_iff.mpr hmemory
    obtain ⟨rfl, rfl⟩ := Prod.mk.inj (Option.some.inj hlayout)
    exact ⟨fun i hi => h.doMemove_eq hdisk s.readBuf hi, rfl, rfl,
      .inr ⟨by dsimp only; omega, rfl, hdisk⟩⟩

/-- A call that gets to the storage is answered, or a failure has nothing to disturb. -/
theorem Served.of_layout (h : s.Served call) (hinit : s.isInited = true) (hpos : 0 ≤ call.pos)
    (hlen : call.pos ≤ s.getValidDataLen) (hsize : 0 < s.realInReadSize call)
    {result : Nat × IteratorStorage}
    (hlayout : s.ensureMemoryLayoutCorrect call.pos.toNat (s.realInReadSize call).toNat call.fresh =
      some result) :
    s.isMemoryStorage = true ∨ s.startLsn = s.endLsn ∨ (∃ len, call.storage = .done len) ∧
      (s.realInReadSize call).toNat ≠ s.validTailPartSize call.pos.toNat := by
  by_cases hmemory : s.isMemoryStorage = true
  · exact .inl hmemory
  by_cases hempty : s.startLsn = s.endLsn
  · exact .inr (.inl hempty)
  refine .inr (.inr (h ⟨by simpa using hmemory, hempty, hinit, hpos, hlen, hsize, ?_⟩))
  intro hnone
  by_contra hsmall
  rw [ensureMemoryLayoutCorrect, if_neg hmemory, if_pos (by omega), hnone] at hlayout
  cases hlayout

theorem Sound.pread (h : s.Sound log) (hserved : s.Served call) :
    (s.pread log call).2.Sound log := by
  unfold IteratorStorage.pread
  split_ifs with hinit hargs hpos hend
  · exact h
  · exact h
  · exact h
  · exact h
  have hsize : 0 < (s.realInReadSize call).toNat := by omega
  unfold readDataFromStorage
  cases hlayout : s.ensureMemoryLayoutCorrect call.pos.toNat (s.realInReadSize call).toNat
      call.fresh with
  | none => exact h
  | some result =>
    obtain ⟨remain, next⟩ := result
    obtain ⟨htail, hstart, hstop, hkind⟩ := h.layout hsize hlayout
    replace hserved := hserved.of_layout (by simpa using hinit) (by omega) (by omega) (by omega)
      hlayout
    dsimp only
    by_cases hwhole : (s.realInReadSize call).toNat = remain
    · -- nothing is left to read after the move
      rw [if_pos hwhole]
      rcases hserved with hmemory | hempty | ⟨-, hmore⟩
      · rcases hkind with ⟨-, rfl, -⟩ | ⟨-, -, hdisk⟩
        · omega
        · exact absurd hmemory (by simp [hdisk])
      · exact .of_empty (by rw [hstart, hstop, hempty])
      · rcases hkind with ⟨-, rfl, -⟩ | ⟨-, rfl, -⟩
        · omega
        · exact absurd hwhole hmore
    rw [if_neg hwhole]
    cases hread : call.storage with
    | failed =>
      rcases hserved with hmemory | hempty | ⟨⟨len, hdone⟩, -⟩
      · rcases hkind with ⟨rfl, -⟩ | ⟨-, -, hdisk⟩
        · simpa only [hmemory, if_true] using h
        · exact absurd hmemory (by simp [hdisk])
      · refine .of_empty ?_
        split_ifs <;> simp only [hstart, hstop, hempty]
      · rw [hread] at hdone
        cases hdone
    | done =>
      refine ⟨fun i hi => ?_, fun hdisk hzero => ?_⟩
      · dsimp only at hi ⊢
        rw [hstart]
        exact store_segment htail (by omega)
      rcases hkind with ⟨rfl, -, hmemory⟩ | ⟨hbuf, -⟩
      · exact absurd hmemory (by simpa using hdisk)
      · dsimp only at hdisk hzero
        rw [if_neg (by simpa using hdisk)] at hzero
        omega

end IteratorStorage

inductive IteratorCall
  | reuse (startLsn : Nat)
  | pread (call : PreadCall)

inductive IteratorStep (log : Nat → UInt8) (Admits : IteratorStorage → PreadCall → Prop) :
    IteratorStorage → IteratorCall → IteratorStorage → Prop
  | reuse (s : IteratorStorage) (startLsn : Nat) :
      IteratorStep log Admits s (.reuse startLsn) (s.reuse startLsn)
  | pread {s : IteratorStorage} (call : PreadCall) :
      Admits s call → IteratorStep log Admits s (.pread call) (s.pread log call).2

open IteratorStorage

/-- While the storage answers, the buffer holds the bytes of the window after every
call; calls that are refused before the move change nothing. -/
theorem iterator_run_agrees {log : Nat → UInt8} {startLsn : Nat} {isMemoryStorage : Bool}
    {calls : List IteratorCall} {final : IteratorStorage}
    (hrun : Execution (IteratorStep log Served) (init startLsn isMemoryStorage) calls final) :
    final.Agrees log := by
  have hsound := hrun.invariant (P := (·.Sound log)) (.of_empty rfl) fun _ _ _ h hstep => by
    cases hstep with
    | reuse => exact .of_empty rfl
    | pread _ hserved => exact h.pread hserved
  exact hsound.agrees

/-- A log whose bytes are one from the second aligned unit on. -/
def unitsLog (n : Nat) : UInt8 := if n < 4096 then 0 else 1

def loadUnits : PreadCall := ⟨0, 8192, 16384, some fun _ => 0, .done 8192⟩

/-- The rest of the window and one more unit. -/
def moveUnit : PreadCall := ⟨4096, 8192, 16384, none, .done 4096⟩

/-- A window is read, a read behind the end of the file is refused, and the second unit
is moved to the head of the buffer. -/
theorem iterator_run_agrees_moved : ∃ final : IteratorStorage,
    final.startLsn = 4096 ∧ final.endLsn = 12288 ∧ final.Agrees unitsLog := by
  obtain ⟨buf, hs⟩ : ∃ buf, ((init 0 false).pread unitsLog loadUnits).2 =
      ⟨0, 8192, buf, 77824, false, true⟩ := ⟨_, rfl⟩
  have hloaded : Execution (IteratorStep unitsLog Served) (init 0 false) _ _ :=
    Execution.refl.snoc (.pread loadUnits fun hmoves => absurd rfl hmoves.2.1)
  rw [hs] at hloaded
  have hrefused := hloaded.snoc (.pread ⟨8192, 8192, 8192, none, .failed .eagain []⟩
    fun hmoves => absurd hmoves.2.2.2.2.2.1 (by simp [realInReadSize]))
  have hsame : ∀ s : IteratorStorage, s = ⟨0, 8192, buf, 77824, false, true⟩ →
      (s.pread unitsLog ⟨8192, 8192, 8192, none, .failed .eagain []⟩).2 = s := by
    rintro _ rfl
    simp [pread, realInReadSize, getValidDataLen]
  rw [hsame _ rfl] at hrefused
  have hmoved := hrefused.snoc (.pread moveUnit fun _ => ⟨⟨4096, rfl⟩, by
    simp [realInReadSize, moveUnit, validTailPartSize, getValidDataLen, lowerAlign,
      logDioAlignSize]⟩)
  refine ⟨_, ?_, ?_, iterator_run_agrees hmoved⟩ <;>
    simp [pread, readDataFromStorage, ensureMemoryLayoutCorrect, realInReadSize, moveUnit,
      getValidDataLen, validTailPartSize, lowerAlign, logDioAlignSize, logCacheAlignSize]

/-- A read that fails in the storage has moved the second unit to the place of the first. -/
theorem iterator_run_shifted : ∃ (calls : List IteratorCall) (final : IteratorStorage),
    Execution (IteratorStep unitsLog fun _ _ => True) (init 0 false) calls final ∧
      final.startLsn = 0 ∧ final.endLsn = 8192 ∧ final.readBuf 0 = 1 ∧ unitsLog 0 = 0 := by
  obtain ⟨buf, hs⟩ : ∃ buf, ((init 0 false).pread unitsLog loadUnits).2 =
      ⟨0, 8192, buf, 77824, false, true⟩ := ⟨_, rfl⟩
  have hsound : ((init 0 false).pread unitsLog loadUnits).2.Sound unitsLog :=
    (Sound.of_empty rfl).pread fun hmoves => absurd rfl hmoves.2.1
  have hloaded : Execution (IteratorStep unitsLog fun _ _ => True) (init 0 false) _ _ :=
    Execution.refl.snoc (.pread loadUnits trivial)
  rw [hs] at hsound hloaded
  have hmoved := hsound.doMemove_eq rfl buf (show 0 < lowerAlign (8192 - 4096) 4096 by decide)
  refine ⟨_, _, hloaded.snoc (.pread ⟨4096, 8192, 16384, none, .failed .eagain []⟩ trivial), ?_⟩
  simp only [pread, readDataFromStorage, ensureMemoryLayoutCorrect, realInReadSize]
  simp [getValidDataLen, validTailPartSize, lowerAlign, logDioAlignSize, logCacheAlignSize]
  rw [store_other (.inl (by decide)), hmoved]
  simp [unitsLog]

end SeekDB
