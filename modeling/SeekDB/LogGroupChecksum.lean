/-
The data checksum of a group of logs (log_group_entry_header.cpp).

The writer scans the group in the pieces of a `LogWriteBuf`, where the end of
the ring buffer may fall anywhere, also inside an entry header; the reader scans
contiguous bytes.  Both fold the checksums of the entries in order.
-/
import SeekDB.LogGroupEntry

namespace SeekDB

open ByteCodec List

namespace LogEntryHeader

@[simp]
theorem length_bytes (header : LogEntryHeader) : header.bytes.length = logEntryHeaderSize := by
  simp [bytes, encodeFields, word64, logEntryHeaderSize]

theorem deserialize_bytes {hashes : Checksums} {header : LogEntryHeader}
    (hcheck : header.checkHeaderIntegrity hashes = true) (hsize : header.logSize < 2 ^ 31)
    (rest : List UInt8) : deserialize hashes (header.bytes ++ rest) = .ok (header, rest) := by
  have hvalid := hcheck
  simp only [checkHeaderIntegrity, isValid, Bool.and_eq_true, decide_eq_true_eq,
    scnIsValid] at hvalid
  obtain ⟨⟨⟨⟨hmagic, hversion⟩, hpos⟩, hscn⟩, -⟩ := hvalid
  have hword : scnOfWord header.scn = header.scn := if_neg (by omega)
  have hsigned : toSigned 4 (toUnsigned 4 header.logSize) = header.logSize := by
    simp only [toSigned, toUnsigned]
    omega
  have hfit : toUnsigned 4 header.logSize < 256 ^ 4 := by
    rw [toUnsigned]
    omega
  have hnonempty : (header.bytes ++ rest).isEmpty = false := by
    simp [← length_eq_zero_iff, logEntryHeaderSize]
  rw [deserialize, hnonempty]
  have hdata : header.dataChecksum.toNat < 256 ^ 8 := header.dataChecksum.isLt
  have hflag : header.flag.toNat < 256 ^ 8 := header.flag.isLt
  have hscn' : header.scn < 256 ^ 8 := by omega
  simp [bytes, encodeFields, word64, hmagic, hversion, hsigned, hword,
    decodeFields_encodeNat (show entryMagic < 256 ^ 2 by decide),
    decodeFields_encodeNat (show entryVersion < 256 ^ 2 by decide), decodeFields_encodeNat hfit,
    decodeFields_encodeNat hscn', decodeFields_encodeNat hdata, decodeFields_encodeNat hflag,
    decodeFields.eq_1]
  simp [← hmagic, ← hversion, hcheck]

end LogEntryHeader

namespace LogEntry

/-- An entry whose header is sound and describes its data. -/
structure Valid (hashes : Checksums) (entry : LogEntry) : Prop where
  header : entry.header.checkHeaderIntegrity hashes = true
  data : entry.checkIntegrity hashes = true
  size : entry.header.logSize = entry.buf.length
  /-- `log_size_` is an `int32_t`. -/
  fits : entry.header.logSize < 2 ^ 31

def bytes (entry : LogEntry) : List UInt8 := entry.header.bytes ++ entry.buf

theorem Valid.deserialize {hashes : Checksums} {entry : LogEntry} (hvalid : entry.Valid hashes)
    (rest : List UInt8) :
    LogEntry.deserialize hashes (entry.bytes ++ rest) = .ok (entry, rest) := by
  simp [LogEntry.deserialize, bytes, LogEntryHeader.deserialize_bytes hvalid.header hvalid.fits,
    hvalid.size]

end LogEntry

namespace LogGroupEntryHeader

/-- The checksum of a list of entries, from a seed. -/
def foldChecksum (hashes : Checksums) (entries : List LogEntry) (checksum : BitVec 64) :
    BitVec 64 :=
  entries.foldl (fun sum entry => hashes.crc64 sum entry.header.dataChecksum) checksum

variable {hashes : Checksums} {entries : List LogEntry}

theorem length_le_bytes (entries : List LogEntry) :
    entries.length ≤ (entries.flatMap LogEntry.bytes).length := by
  induction entries with
  | nil => rfl
  | cons =>
    simp only [flatMap_cons, length_append, length_cons, LogEntry.bytes,
      LogEntryHeader.length_bytes, logEntryHeaderSize]
    omega

/-- The reader's scan. -/
theorem checkEntries_fold (hvalid : ∀ entry ∈ entries, entry.Valid hashes) {fuel : Nat}
    (hfuel : entries.length ≤ fuel) (checksum : BitVec 64) :
    checkEntries hashes fuel checksum (entries.flatMap LogEntry.bytes) =
      some (foldChecksum hashes entries checksum) := by
  induction entries generalizing fuel checksum with
  | nil => simp [checkEntries, foldChecksum]
  | cons entry entries ih =>
    obtain ⟨hentry, hentries⟩ := forall_mem_cons.mp hvalid
    obtain ⟨fuel, rfl⟩ := Nat.exists_eq_succ_of_ne_zero (Nat.ne_zero_of_lt hfuel)
    have hread := hentry.deserialize (entries.flatMap LogEntry.bytes)
    have hpos : 0 < (entry.bytes ++ entries.flatMap LogEntry.bytes).length := by
      simp [LogEntry.bytes, logEntryHeaderSize]
    obtain ⟨byte, buf, hbuf⟩ := exists_cons_of_length_pos hpos
    rw [hbuf] at hread
    rw [flatMap_cons, hbuf, checkEntries, hread]
    simp only [hentry.data, if_true]
    exact ih hentries (Nat.le_of_succ_le_succ hfuel) _

section

variable {curr front rest : List UInt8} {later : List (List UInt8)}

theorem append_eq_append_of_length_le {back : List UInt8} (happend : curr ++ back = front ++ rest)
    (hle : curr.length ≤ front.length) : ∃ mid, front = curr ++ mid ∧ back = mid ++ rest := by
  obtain ⟨mid, rfl⟩ := prefix_of_prefix_length_le (prefix_append curr back)
    (happend ▸ prefix_append front rest) hle
  rw [append_assoc, append_cancel_left_eq] at happend
  exact ⟨mid, rfl, happend⟩

theorem nextHeader_end (hlater : later.length ≤ 1) (hbytes : curr ++ later.flatten = front) :
    nextHeader curr later front.length = .ok none := by
  subst front
  match later with
  | [] => simp [nextHeader]
  | [next] => simp [nextHeader]

/-- Wherever the pieces end, the next header is found whole. -/
theorem nextHeader_header {header : List UInt8} (hheader : header.length = logEntryHeaderSize)
    (hlater : later.length ≤ 1) (hbytes : curr ++ later.flatten = front ++ (header ++ rest)) :
    ∃ place front' tail, nextHeader curr later front.length = .ok (some place) ∧
      place.buf = header ++ tail ∧ place.pos = front'.length ∧ place.later.length ≤ 1 ∧
      place.curr ++ place.later.flatten = front' ++ rest := by
  have hpos : 0 < logEntryHeaderSize := by decide
  unfold nextHeader
  rcases le_or_gt curr.length front.length with hend | hin
  · -- the next piece starts before the header or at it
    obtain ⟨back, rfl, hback⟩ := append_eq_append_of_length_le hbytes hend
    rw [if_pos hend]
    match later with
    | [] =>
      have hlen := congrArg List.length hback
      simp [hheader] at hlen
      omega
    | [next] =>
      obtain rfl : next = back ++ (header ++ rest) := by simpa using hback
      simp only [length_append, Nat.add_sub_cancel_left]
      rw [if_neg (by omega), if_neg (by omega)]
      exact ⟨_, back ++ header, rest, rfl, by simp, by simp [hheader], by simp, by simp⟩
  · obtain ⟨back, rfl, hback⟩ := append_eq_append_of_length_le hbytes.symm hin.le
    rw [if_neg (by omega), length_append, Nat.add_sub_cancel_left, drop_left]
    rcases lt_or_ge back.length logEntryHeaderSize with hsplit | hwhole
    · -- the piece ends inside the header
      obtain ⟨cut, rfl, hcut⟩ := append_eq_append_of_length_le hback.symm (hheader ▸ hsplit.le)
      rw [if_pos hsplit, ← hheader, length_append]
      match later with
      | [] =>
        rw [length_append] at hheader
        have hlen := congrArg List.length hcut
        simp at hlen
        omega
      | [next] =>
        obtain rfl : next = cut ++ rest := by simpa using hcut
        exact ⟨_, cut, [], rfl, by simp, by simp, by simp, by simp⟩
    · obtain ⟨tail, rfl, htail⟩ := append_eq_append_of_length_le hback (hheader ▸ hwhole)
      rw [if_neg (by omega)]
      exact ⟨_, front ++ header, tail, rfl, rfl, by simp [hheader], hlater, by simp [htail]⟩

/-- The writer's scan. -/
theorem checksumLoop_fold (hvalid : ∀ entry ∈ entries, entry.Valid hashes) {fuel : Nat}
    (hfuel : entries.length < fuel) (hlater : later.length ≤ 1)
    (hbytes : curr ++ later.flatten = front ++ entries.flatMap LogEntry.bytes)
    (checksum : BitVec 64) :
    checksumLoop hashes fuel curr later front.length checksum =
      .ok (foldChecksum hashes entries checksum) := by
  induction entries generalizing fuel curr later front checksum with
  | nil =>
    obtain ⟨fuel, rfl⟩ := Nat.exists_eq_succ_of_ne_zero (Nat.ne_zero_of_lt hfuel)
    rw [checksumLoop, nextHeader_end hlater (hbytes.trans (append_nil _))]
    rfl
  | cons entry entries ih =>
    obtain ⟨hentry, hentries⟩ := forall_mem_cons.mp hvalid
    obtain ⟨fuel, rfl⟩ := Nat.exists_eq_succ_of_ne_zero (Nat.ne_zero_of_lt hfuel)
    rw [flatMap_cons, LogEntry.bytes, append_assoc] at hbytes
    obtain ⟨place, front', tail, hnext, hbuf, hpos, hpieces, hplace⟩ :=
      nextHeader_header (LogEntryHeader.length_bytes _) hlater hbytes
    rw [checksumLoop, hnext]
    simp only [hbuf, LogEntryHeader.deserialize_bytes hentry.header hentry.fits, hpos, hentry.size,
      Int.toNat_natCast, ← length_append]
    rw [← append_assoc] at hplace
    exact ih hentries (Nat.lt_of_succ_lt_succ hfuel) hpieces hplace _

end

/-- For every list of sound entries behind a group header, and every way to lay
the group out in one or two pieces, the writer's checksum exists and is the one
that the reader computes from the contiguous bytes. -/
theorem calculateLogChecksum_pieces {first groupHeader : List UInt8} {later : List (List UInt8)}
    {header : LogGroupEntryHeader} (hvalid : ∀ entry ∈ entries, entry.Valid hashes)
    (hgroup : groupHeader.length = logGroupEntryHeaderSize) (hlater : later.length ≤ 1)
    (hbytes : first ++ later.flatten = groupHeader ++ entries.flatMap LogEntry.bytes)
    (hlog : header.isPaddingLog = false) :
    ∃ checksum,
      calculateLogChecksum hashes false (first :: later) (entries.flatMap LogEntry.bytes).length =
        .ok checksum ∧
      header.checkLogChecksum hashes (entries.flatMap LogEntry.bytes) = some checksum := by
  have hcount := length_le_bytes entries
  refine ⟨foldChecksum hashes entries 0, ?_, ?_⟩
  · simp only [calculateLogChecksum, flatten_cons, Bool.false_eq_true, if_false, hbytes,
      length_append, hgroup]
    rw [if_neg (by omega), ← hgroup]
    exact checksumLoop_fold hvalid (by omega) hlater hbytes 0
  · rw [checkLogChecksum, hlog]
    exact checkEntries_fold hvalid hcount 0

def sumChecksums : Checksums :=
  ⟨fun seed word => seed + word, fun buf => BitVec.ofNat 64 (buf.map UInt8.toNat).sum, fun _ => 0,
    fun _ => 0⟩

def twoEntries : List LogEntry :=
  [⟨⟨0x4C48, 2, 1, 5, 3, 0⟩, [3]⟩, ⟨⟨0x4C48, 2, 2, 6, 9, 0⟩, [4, 5]⟩]

/-- Two entries, with sums for checksums; the first piece ends inside the first entry header. -/
theorem calculateLogChecksum_pieces_wrapped :
    ∃ checksum,
      calculateLogChecksum sumChecksums false
        [List.replicate 48 0 ++ [0x4C], [0x48, 0, 2, 0, 0, 0, 1, 0, 0, 0, 0, 0, 0, 0, 5,
          0, 0, 0, 0, 0, 0, 0, 3, 0, 0, 0, 0, 0, 0, 0, 0, 3,
          0x4C, 0x48, 0, 2, 0, 0, 0, 2, 0, 0, 0, 0, 0, 0, 0, 6,
          0, 0, 0, 0, 0, 0, 0, 9, 0, 0, 0, 0, 0, 0, 0, 0, 4, 5]]
        (twoEntries.flatMap LogEntry.bytes).length = .ok checksum ∧
      empty.checkLogChecksum sumChecksums (twoEntries.flatMap LogEntry.bytes) = some checksum :=
  calculateLogChecksum_pieces
    (by
      intro entry hentry
      rcases mem_pair.mp hentry with rfl | rfl <;> exact ⟨by decide, by decide, rfl, by decide⟩)
    (length_replicate (a := (0 : UInt8))) (by decide) (by decide) (by decide)

end LogGroupEntryHeader

end SeekDB
