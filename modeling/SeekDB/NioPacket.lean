/-
MySQL packets (packet.rs, and the framing functions of response.rs).

A payload is cut into packets of at most `MAX_PAYLOAD` bytes, each behind a
header with its length and a sequence number; the last packet is shorter than
that, and empty if need be.  Memory for the assembled payload can always be
had.
-/
import SeekDB.ByteMemory

namespace SeekDB.Nio

open ByteMemory List

/-- `HEADER_SIZE`. -/
def headerSize : Nat := 4

/-- `MAX_PAYLOAD`. -/
def maxPayload : Nat := 0xffffff

/-- `MAX_LOGICAL_PAYLOAD`. -/
def maxLogicalPayload : Nat := 1024 * 1024 * 1024

inductive AssembleStep
  | needMore
  | bad
  | packet (consumed : Nat) (lastSeq : UInt8) (body : List UInt8)
  deriving Repr, DecidableEq

/-- The header that `write_header` and `frame_payload_in_place` write. -/
def packetHeader (len : Nat) (seq : UInt8) : List UInt8 :=
  [UInt8.ofNat (len &&& 0xff), UInt8.ofNat ((len >>> 8) &&& 0xff),
    UInt8.ofNat ((len >>> 16) &&& 0xff), seq]

/-- The length in the first three bytes of a header. -/
def headerLen (h0 h1 h2 : UInt8) : Nat :=
  h0.toNat ||| (h1.toNat <<< 8) ||| (h2.toNat <<< 16)

/-! Assembling. -/

/-- How the first loop of `assemble_command_limited_with_scratch` ends. -/
inductive ScanStep
  | needMore
  | bad
  | done (scan total : Nat) (lastSeq : UInt8)
  deriving Repr, DecidableEq

/-- The first loop.  Every round passes a header, so the bytes of the buffer
bound the rounds. -/
def scanPackets (limit : Nat) (buf : List UInt8) :
    Nat → Nat → Nat → Option UInt8 → ScanStep
  | 0, _, _, _ => .bad
  | fuel + 1, scan, total, lastSeq =>
    match buf.drop scan with
    | h0 :: h1 :: h2 :: seq :: body =>
      let len := headerLen h0 h1 h2
      if lastSeq.any (fun prev => seq != prev + 1) then .bad
      else if limit < total + len then .bad
      else if body.length < len then .needMore
      else if len < maxPayload then .done (scan + headerSize + len) (total + len) seq
      else scanPackets limit buf fuel (scan + headerSize + len) (total + len) (some seq)
    | _ => .needMore

/-- The second loop copies the payloads of the packets up to `scan`. -/
def copyPackets (buf : List UInt8) (scan : Nat) : Nat → Nat → List UInt8 → List UInt8
  | 0, _, scratch => scratch
  | fuel + 1, copy, scratch =>
    if copy < scan then
      match buf.drop copy with
      | h0 :: h1 :: h2 :: _ :: body =>
        let len := headerLen h0 h1 h2
        copyPackets buf scan fuel (copy + headerSize + len) (scratch ++ body.take len)
      | _ => scratch
    else scratch

/-- `assemble_command_limited_with_scratch`. -/
def assembleCommandLimited (buf : List UInt8) (start limit : Nat) : AssembleStep :=
  if buf.length < start then .bad
  else
    match scanPackets (min limit maxLogicalPayload) buf (buf.length + 1) start 0 none with
    | .needMore => .needMore
    | .bad => .bad
    | .done scan _ lastSeq =>
      .packet (scan - start) lastSeq (copyPackets buf scan (buf.length + 1) start [])

/-! Framing. -/

structure FrameLayout where
  wireLen : Nat
  packetCount : Nat
  deriving Repr, DecidableEq

/-- `frame_layout`. -/
def frameLayout (payloadLen : Nat) : Option FrameLayout :=
  if maxLogicalPayload < payloadLen then none
  else
    let packetCount := payloadLen / maxPayload + 1
    some ⟨payloadLen + packetCount * headerSize, packetCount⟩

/-- `chunk_len` of a frame. -/
def chunkLen (payloadLen packetCount frame : Nat) : Nat :=
  if frame + 1 = packetCount then payloadLen - frame * maxPayload else maxPayload

/-- The first loop of `frame_payload_in_place`: the frames behind the first one,
the last frame first, make room for their headers. -/
def spreadChunks (payloadLen packetCount : Nat) :
    Nat → (Nat → UInt8) → (Nat → UInt8)
  | 0, buffer => buffer
  | 1, buffer => buffer
  | frame + 2, buffer =>
    let payloadAt := (frame + 1) * maxPayload
    let len := chunkLen payloadLen packetCount (frame + 1)
    spreadChunks payloadLen packetCount (frame + 1)
      (if 0 < len then
        ByteMemory.move buffer (headerSize + payloadAt)
          ((frame + 1) * (maxPayload + headerSize) + headerSize) len
      else buffer)

/-- The second loop of `frame_payload_in_place`, for the first `frames` frames. -/
def writeHeaders (payloadLen packetCount : Nat) (firstSeq : UInt8) :
    Nat → (Nat → UInt8) → (Nat → UInt8)
  | 0, buffer => buffer
  | frame + 1, buffer =>
    store (writeHeaders payloadLen packetCount firstSeq frame buffer)
      (frame * (maxPayload + headerSize))
      (packetHeader (chunkLen payloadLen packetCount frame) (firstSeq + UInt8.ofNat frame))

/-- `frame_payload_in_place`. -/
def framePayloadInPlace (buffer : Nat → UInt8) (payloadLen : Nat) (firstSeq : UInt8)
    (layout : FrameLayout) : Nat → UInt8 :=
  writeHeaders payloadLen layout.packetCount firstSeq layout.packetCount
    (spreadChunks payloadLen layout.packetCount layout.packetCount buffer)

/-! The packets of a payload. -/

/-- `full` full packets and a last one. -/
def framesFrom : Nat → UInt8 → List UInt8 → List UInt8
  | 0, seq, payload => packetHeader payload.length seq ++ payload
  | full + 1, seq, payload =>
    packetHeader maxPayload seq ++ payload.take maxPayload ++
      framesFrom full (seq + 1) (payload.drop maxPayload)

/-- The packets of a payload from a sequence number on. -/
def frames (seq : UInt8) (payload : List UInt8) : List UInt8 :=
  framesFrom (payload.length / maxPayload) seq payload

theorem headerLen_packetHeader {len : Nat} (hlen : len ≤ maxPayload) :
    headerLen (UInt8.ofNat (len &&& 0xff)) (UInt8.ofNat ((len >>> 8) &&& 0xff))
      (UInt8.ofNat ((len >>> 16) &&& 0xff)) = len := by
  have hlow : ∀ n, (UInt8.ofNat (n &&& 0xff)).toNat = n % 256 := by
    intro n
    rw [UInt8.toNat_ofNat', Nat.and_two_pow_sub_one_eq_mod n 8]
    omega
  unfold maxPayload at hlen
  unfold headerLen
  rw [hlow, hlow, hlow, Nat.shiftRight_eq_div_pow, Nat.shiftRight_eq_div_pow,
    Nat.or_comm (len % 256), ← Nat.shiftLeft_add_eq_or_of_lt (by omega), Nat.or_comm,
    ← Nat.shiftLeft_add_eq_or_of_lt (by rw [Nat.shiftLeft_eq]; omega),
    Nat.shiftLeft_eq, Nat.shiftLeft_eq]
  omega

theorem length_packetHeader (len : Nat) (seq : UInt8) :
    (packetHeader len seq).length = headerSize := rfl

theorem div_eq_succ {full : Nat} {payload : List UInt8}
    (hfull : payload.length / maxPayload = full + 1) :
    maxPayload ≤ payload.length ∧ (payload.drop maxPayload).length / maxPayload = full := by
  have hlong : maxPayload ≤ payload.length :=
    (Nat.div_pos_iff.mp (by omega)).2
  refine ⟨hlong, ?_⟩
  have hsub := Nat.div_eq_sub_div (show 0 < maxPayload by decide) hlong
  rw [length_drop]
  omega

theorem length_framesFrom {full : Nat} {seq : UInt8} {payload : List UInt8}
    (hfull : payload.length / maxPayload = full) :
    (framesFrom full seq payload).length = payload.length + (full + 1) * headerSize := by
  induction full generalizing seq payload with
  | zero => simp [framesFrom, length_packetHeader, Nat.add_comm]
  | succ full ih =>
    obtain ⟨hlong, hrest⟩ := div_eq_succ hfull
    simp only [framesFrom, length_append, length_packetHeader, length_take,
      ih hrest, length_drop, Nat.add_mul]
    omega

theorem packetHeader_append (len : Nat) (seq : UInt8) (rest : List UInt8) :
    packetHeader len seq ++ rest =
      UInt8.ofNat (len &&& 0xff) :: UInt8.ofNat ((len >>> 8) &&& 0xff) ::
        UInt8.ofNat ((len >>> 16) &&& 0xff) :: seq :: rest := rfl

section

variable {limit scan total fuel full : Nat} {buf payload rest : List UInt8} {seq : UInt8}
  {lastSeq : Option UInt8}

theorem scanPackets_header {len : Nat} {body : List UInt8}
    (hbuf : buf.drop scan = packetHeader len seq ++ body) (hlen : len ≤ maxPayload)
    (hlimit : total + len ≤ limit) (hseq : ∀ prev ∈ lastSeq, seq = prev + 1) :
    scanPackets limit buf (fuel + 1) scan total lastSeq =
      if body.length < len then .needMore
      else if len < maxPayload then .done (scan + headerSize + len) (total + len) seq
      else scanPackets limit buf fuel (scan + headerSize + len) (total + len)
        (some seq) := by
  have hnext : lastSeq.any (fun prev => seq != prev + 1) = false := by
    cases lastSeq with
    | none => rfl
    | some prev => simp [hseq prev rfl]
  rw [packetHeader_append] at hbuf
  simp only [scanPackets]
  rw [hbuf]
  simp only [headerLen_packetHeader hlen, hnext, Bool.false_eq_true, if_false,
    Nat.not_lt.mpr hlimit]

theorem drop_packet {len : Nat} {front later : List UInt8}
    (hbuf : buf.drop scan = packetHeader len seq ++ (front ++ later))
    (hfront : front.length = maxPayload) : buf.drop (scan + headerSize + maxPayload) = later := by
  rw [Nat.add_assoc, ← drop_drop, hbuf, ← drop_drop,
    drop_left' (length_packetHeader _ _), drop_left' hfront]

theorem scanPackets_framesFrom (hbuf : buf.drop scan = framesFrom full seq payload ++ rest)
    (hfull : payload.length / maxPayload = full) (hlimit : total + payload.length ≤ limit)
    (hseq : ∀ prev ∈ lastSeq, seq = prev + 1) (hfuel : full < fuel) :
    scanPackets limit buf fuel scan total lastSeq =
      .done (scan + payload.length + (full + 1) * headerSize) (total + payload.length)
        (seq + UInt8.ofNat full) := by
  obtain ⟨fuel, rfl⟩ : ∃ smaller, fuel = smaller + 1 := ⟨fuel - 1, by omega⟩
  induction full generalizing fuel scan total lastSeq seq payload with
  | zero =>
    have hshort := (Nat.div_eq_zero_iff_lt (show 0 < maxPayload by decide)).mp hfull
    rw [scanPackets_header hbuf (by omega) hlimit hseq, if_neg (by simp), if_pos hshort]
    simp only [ScanStep.done.injEq, true_and]
    constructor
    · omega
    · simp
  | succ full ih =>
    obtain ⟨hlong, hrest⟩ := div_eq_succ hfull
    rw [framesFrom, append_assoc, append_assoc] at hbuf
    have htake : (payload.take maxPayload).length = maxPayload := by simp [hlong]
    have hdrop := drop_packet hbuf htake
    obtain ⟨fuel, rfl⟩ : ∃ smaller, fuel = smaller + 1 := ⟨fuel - 1, by omega⟩
    have hlimit' : total + maxPayload + (payload.drop maxPayload).length ≤ limit := by
      rw [length_drop]
      omega
    have hseq' : ∀ prev ∈ some seq, seq + 1 = prev + 1 := by simp
    have hlater := ih hdrop hrest hlimit' hseq' fuel (by omega)
    rw [scanPackets_header hbuf le_rfl (by omega) hseq,
      if_neg (by simp [htake]), if_neg (Nat.lt_irrefl _), hlater]
    simp only [length_drop, ScanStep.done.injEq]
    refine ⟨?_, by omega, ?_⟩
    · rw [Nat.add_mul (full + 1) 1]
      omega
    · have hone : UInt8.ofNat (full + 1) = 1 + UInt8.ofNat full := by
        rw [Nat.add_comm]
        exact UInt8.ofNat_add 1 full
      rw [hone, UInt8.add_assoc]

theorem scanPackets_short (hshort : (buf.drop scan).length < headerSize) :
    scanPackets limit buf (fuel + 1) scan total lastSeq = .needMore := by
  unfold scanPackets
  unfold headerSize at hshort
  split
  · rename_i heq
    rw [heq] at hshort
    simp only [length_cons] at hshort
    omega
  · rfl

theorem prefix_append_cases {α : Type*} {front left right : List α} (h : front <+: left ++ right) :
    front.length < left.length ∨ ∃ back, front = left ++ back ∧ back <+: right := by
  obtain ⟨tail, htail⟩ := h
  rcases append_eq_append_iff.mp htail with ⟨back, rfl, rfl⟩ | ⟨back, rfl, rfl⟩
  · cases back with
    | nil => exact .inr ⟨[], by simp, nil_prefix⟩
    | cons => exact .inl (by simp)
  · exact .inr ⟨back, rfl, prefix_append _ _⟩

theorem scanPackets_prefix {front : List UInt8} (hbuf : buf.drop scan = front)
    (hfront : front <+: framesFrom full seq payload) (hne : front ≠ framesFrom full seq payload)
    (hfull : payload.length / maxPayload = full) (hlimit : total + payload.length ≤ limit)
    (hseq : ∀ prev ∈ lastSeq, seq = prev + 1) (hfuel : front.length < fuel) :
    scanPackets limit buf fuel scan total lastSeq = .needMore := by
  obtain ⟨fuel, rfl⟩ : ∃ smaller, fuel = smaller + 1 := ⟨fuel - 1, by omega⟩
  induction full generalizing fuel scan total lastSeq seq payload front with
  | zero =>
    have hshort := (Nat.div_eq_zero_iff_lt (show 0 < maxPayload by decide)).mp hfull
    rcases prefix_append_cases hfront with hpart | ⟨back, rfl, hback⟩
    · exact scanPackets_short (by rw [hbuf]; exact hpart)
    have hlt : back.length < payload.length := by
      rcases Nat.lt_or_eq_of_le hback.length_le with hlt | heq
      · exact hlt
      · exact absurd (congrArg (packetHeader _ seq ++ ·) (hback.eq_of_length heq)) hne
    rw [scanPackets_header hbuf (by omega) hlimit hseq, if_pos hlt]
  | succ full ih =>
    obtain ⟨hlong, hrest⟩ := div_eq_succ hfull
    have htake : (payload.take maxPayload).length = maxPayload := by simp [hlong]
    rw [framesFrom, append_assoc] at hfront hne
    rcases prefix_append_cases hfront with hpart | ⟨back, rfl, hback⟩
    · exact scanPackets_short (by rw [hbuf]; exact hpart)
    rw [scanPackets_header hbuf le_rfl (by omega) hseq]
    rcases prefix_append_cases hback with hpart | ⟨later, rfl, hlater⟩
    · rw [if_pos (by omega)]
    rw [if_neg (by simp [htake]), if_neg (Nat.lt_irrefl _)]
    have hdrop := drop_packet hbuf htake
    rw [length_append, length_append, length_packetHeader, htake] at hfuel
    have hheader : 0 < headerSize := by decide
    obtain ⟨fuel, rfl⟩ : ∃ smaller, fuel = smaller + 1 := ⟨fuel - 1, by omega⟩
    have hlimit' : total + maxPayload + (payload.drop maxPayload).length ≤ limit := by
      rw [length_drop]
      omega
    have hseq' : ∀ prev ∈ some seq, seq + 1 = prev + 1 := by simp
    refine ih hdrop hlater ?_ hrest hlimit' hseq' fuel (by omega)
    rintro rfl
    exact hne rfl

theorem copyPackets_framesFrom {copy : Nat} (scratch : List UInt8)
    (hbuf : buf.drop copy = framesFrom full seq payload ++ rest)
    (hfull : payload.length / maxPayload = full) (hfuel : full + 1 < fuel)
    (hscan : scan = copy + payload.length + (full + 1) * headerSize) :
    copyPackets buf scan fuel copy scratch = scratch ++ payload := by
  have hheader : 0 < headerSize := by decide
  obtain ⟨fuel, rfl⟩ : ∃ smaller, fuel = smaller + 2 := ⟨fuel - 2, by omega⟩
  induction full generalizing fuel copy seq payload scratch with
  | zero =>
    have hshort := ((Nat.div_eq_zero_iff_lt (show 0 < maxPayload by decide)).mp hfull).le
    rw [framesFrom, append_assoc, packetHeader_append] at hbuf
    have hend : ¬ copy + headerSize + payload.length < scan := by omega
    simp only [copyPackets]
    rw [if_pos (by omega), hbuf]
    simp only [headerLen_packetHeader hshort, if_neg hend, take_left']
  | succ full ih =>
    obtain ⟨hlong, hrest⟩ := div_eq_succ hfull
    have htake : (payload.take maxPayload).length = maxPayload := by simp [hlong]
    rw [framesFrom, append_assoc, append_assoc] at hbuf
    have hdrop := drop_packet hbuf htake
    obtain ⟨fuel, rfl⟩ : ∃ smaller, fuel = smaller + 1 := ⟨fuel - 1, by omega⟩
    rw [Nat.add_mul (full + 1) 1] at hscan
    have hlater : copyPackets buf scan (fuel + 2) (copy + headerSize + maxPayload)
        (scratch ++ payload.take maxPayload) = _ :=
      ih _ hdrop hrest (by rw [length_drop]; omega) fuel (by omega)
    rw [packetHeader_append] at hbuf
    rw [copyPackets, if_pos (by omega), hbuf]
    simp only [headerLen_packetHeader le_rfl, take_left' htake]
    rw [hlater, append_assoc, take_append_drop]

theorem length_frames (seq : UInt8) (payload : List UInt8) : (frames seq payload).length =
      payload.length + (payload.length / maxPayload + 1) * headerSize :=
  length_framesFrom rfl

variable {start : Nat}

theorem assembleCommandLimited_frames (hstart : start ≤ buf.length)
    (hbuf : buf.drop start = frames seq payload ++ rest) (hlimit : payload.length ≤ limit)
    (hmax : payload.length ≤ maxLogicalPayload) :
    assembleCommandLimited buf start limit = .packet (frames seq payload).length
        (seq + UInt8.ofNat (payload.length / maxPayload)) payload := by
  have hlen := congrArg List.length hbuf
  have hheader : 1 ≤ headerSize := by decide
  have hcount := Nat.le_mul_of_pos_right (payload.length / maxPayload + 1) hheader
  rw [length_drop, length_append, length_frames] at hlen
  have hscan : scanPackets (min limit maxLogicalPayload) buf (buf.length + 1) start 0 none =
      _ := scanPackets_framesFrom hbuf rfl (by omega) (by simp) (by omega)
  have hfuel : payload.length / maxPayload + 1 < buf.length + 1 := by omega
  have hcopy := copyPackets_framesFrom [] hbuf rfl hfuel rfl
  unfold assembleCommandLimited
  rw [if_neg (by omega), hscan]
  simp only [hcopy, nil_append, length_frames]
  congr 1
  omega

theorem assembleCommandLimited_prefix {front : List UInt8} (hstart : start ≤ buf.length)
    (hbuf : buf.drop start = front) (hfront : front <+: frames seq payload)
    (hne : front ≠ frames seq payload) (hlimit : payload.length ≤ limit)
    (hmax : payload.length ≤ maxLogicalPayload) :
    assembleCommandLimited buf start limit = .needMore := by
  have hlen := congrArg List.length hbuf
  rw [length_drop] at hlen
  have hscan : scanPackets (min limit maxLogicalPayload) buf (buf.length + 1) start 0 none =
      .needMore := scanPackets_prefix hbuf hfront hne rfl (by omega) (by simp) (by omega)
  unfold assembleCommandLimited
  rw [if_neg (by omega), hscan]

end

section

variable {payloadLen frame i : Nat}

theorem chunkLen_le (payloadLen frame : Nat) :
    chunkLen payloadLen (payloadLen / maxPayload + 1) frame ≤ maxPayload := by
  have hdiv := Nat.div_add_mod payloadLen maxPayload
  have hmod := Nat.mod_lt payloadLen (show 0 < maxPayload by decide)
  rw [Nat.mul_comm] at hdiv
  unfold chunkLen
  split
  · obtain rfl : frame = payloadLen / maxPayload := by omega
    omega
  · exact le_rfl

theorem spreadChunks_spec {packetCount : Nat}
    (hle : ∀ frame, chunkLen payloadLen packetCount frame ≤ maxPayload) (frames : Nat)
    (buffer : Nat → UInt8) :
    (∀ frame, 1 ≤ frame → frame < frames → ∀ i, i < chunkLen payloadLen packetCount frame →
        spreadChunks payloadLen packetCount frames buffer
          (frame * (maxPayload + headerSize) + headerSize + i) =
            buffer (headerSize + frame * maxPayload + i)) ∧
    (∀ p, (∀ frame, 1 ≤ frame → frame < frames →
        p < frame * (maxPayload + headerSize) + headerSize ∨
          frame * (maxPayload + headerSize) + headerSize +
            chunkLen payloadLen packetCount frame ≤ p) →
      spreadChunks payloadLen packetCount frames buffer p = buffer p) := by
  induction frames generalizing buffer with
  | zero => exact ⟨fun frame _ hlt => absurd hlt (by omega), fun _ _ => rfl⟩
  | succ last ih =>
    cases last with
    | zero => exact ⟨fun frame _ hlt => absurd hlt (by omega), fun _ _ => rfl⟩
    | succ last =>
      simp only [spreadChunks]
      generalize hlen : chunkLen payloadLen packetCount (last + 1) = len
      generalize hmoved : (ite (0 < len) _ buffer : Nat → UInt8) = moved
      have hstart := Nat.mul_add (last + 1) maxPayload headerSize
      have hat : ∀ i, i < len → moved ((last + 1) * (maxPayload + headerSize) + headerSize + i) =
            buffer (headerSize + (last + 1) * maxPayload + i) := by
        intro i hi
        rw [← hmoved, if_pos (by omega)]
        exact move_at hi
      have hother : ∀ p, p < (last + 1) * (maxPayload + headerSize) + headerSize ∨
          (last + 1) * (maxPayload + headerSize) + headerSize + len ≤ p → moved p = buffer p := by
        intro p hp
        rw [← hmoved]
        split
        · exact move_other hp
        · rfl
      obtain ⟨hchunks, hsame⟩ := ih moved
      constructor
      · intro frame hfirst hlt i hi
        rcases Nat.lt_or_eq_of_le (Nat.le_of_lt_succ hlt) with hlt | rfl
        · -- the source of an earlier frame ends before the moved chunk
          have hmul := Nat.mul_le_mul_right maxPayload hlt
          have hchunk := hle frame
          rw [Nat.succ_mul] at hmul
          rw [hchunks frame hfirst hlt i hi, hother _ (.inl (by omega))]
        rw [hsame, hat i (by omega)]
        intro earlier _ hlt
        have hmul := Nat.mul_le_mul_right (maxPayload + headerSize) hlt
        have hchunk := hle earlier
        rw [Nat.succ_mul] at hmul
        exact .inr (by omega)
      · intro p hp
        have hout := hp (last + 1) (by omega) (Nat.lt_succ_self _)
        rw [hlen] at hout
        rw [hsame p fun frame hfirst hlt => hp frame hfirst (by omega), hother p hout]

theorem writeHeaders_spec (payloadLen packetCount : Nat) (firstSeq : UInt8) (frames : Nat)
    (buffer : Nat → UInt8) :
    (∀ frame, frame < frames →
      ByteMemory.segment (writeHeaders payloadLen packetCount firstSeq frames buffer)
        (frame * (maxPayload + headerSize)) headerSize =
          packetHeader (chunkLen payloadLen packetCount frame)
            (firstSeq + UInt8.ofNat frame)) ∧
    (∀ p, (∀ frame, frame < frames → p < frame * (maxPayload + headerSize) ∨
        frame * (maxPayload + headerSize) + headerSize ≤ p) →
      writeHeaders payloadLen packetCount firstSeq frames buffer p = buffer p) := by
  induction frames with
  | zero => exact ⟨fun frame hlt => absurd hlt (by omega), fun _ _ => rfl⟩
  | succ last ih =>
    obtain ⟨hheaders, hsame⟩ := ih
    simp only [writeHeaders]
    constructor
    · intro frame hlt
      rcases Nat.lt_or_eq_of_le (Nat.le_of_lt_succ hlt) with hlt | rfl
      · rw [← hheaders frame hlt]
        apply segment_congr
        intro i hi
        have hmul := Nat.mul_le_mul_right (maxPayload + headerSize) hlt
        rw [Nat.succ_mul] at hmul
        exact store_other (.inl (by omega))
      · exact segment_store _ _ _
    · intro p hp
      rw [store_other (hp last (Nat.lt_succ_self last))]
      exact hsame p fun frame hlt => hp frame (Nat.lt_succ_of_lt hlt)

variable {buffer : Nat → UInt8} {payload : List UInt8} {firstSeq : UInt8}
  {layout : FrameLayout}

theorem frameLayout_eq (hmax : payload.length ≤ maxLogicalPayload) : frameLayout payload.length =
      some ⟨payload.length + (payload.length / maxPayload + 1) * headerSize,
        payload.length / maxPayload + 1⟩ := by
  unfold frameLayout
  rw [if_neg (by omega)]

theorem chunk_le (hframe : frame < payloadLen / maxPayload + 1) :
    frame * maxPayload + chunkLen payloadLen (payloadLen / maxPayload + 1) frame ≤ payloadLen := by
  have hle := Nat.div_mul_le_self payloadLen maxPayload
  unfold chunkLen
  split
  · obtain rfl : frame = payloadLen / maxPayload := by omega
    omega
  have hmul := Nat.mul_le_mul_right maxPayload
    (show frame + 1 ≤ payloadLen / maxPayload by omega)
  rw [Nat.add_one_mul] at hmul
  omega

section

variable (hpayload : ByteMemory.segment buffer headerSize payload.length = payload)

include hpayload

theorem segment_frame (hcount : layout.packetCount = payload.length / maxPayload + 1)
    (hframe : frame < layout.packetCount) :
    ByteMemory.segment (framePayloadInPlace buffer payload.length firstSeq layout)
        (frame * (maxPayload + headerSize))
        (headerSize + chunkLen payload.length layout.packetCount frame) =
      packetHeader (chunkLen payload.length layout.packetCount frame)
          (firstSeq + UInt8.ofNat frame) ++
        (payload.drop (frame * maxPayload)).take
          (chunkLen payload.length layout.packetCount frame) := by
  have hle : ∀ frame, chunkLen payload.length layout.packetCount frame ≤ maxPayload := by
    rw [hcount]
    exact chunkLen_le payload.length
  obtain ⟨hchunks, hsame⟩ := spreadChunks_spec hle layout.packetCount buffer
  obtain ⟨hheaders, hkept⟩ := writeHeaders_spec payload.length layout.packetCount firstSeq
    layout.packetCount (spreadChunks payload.length layout.packetCount layout.packetCount buffer)
  have hlen := hle frame
  rw [segment_add]
  congr 1
  · exact hheaders frame hframe
  have hinside := chunk_le (hcount ▸ hframe)
  rw [← hcount] at hinside
  have hsource : payload.drop (frame * maxPayload) =
      ByteMemory.segment buffer (headerSize + frame * maxPayload)
        (payload.length - frame * maxPayload) := by
    conv_lhs => rw [← hpayload]
    exact drop_segment (by omega)
  rw [hsource, take_segment (by omega)]
  apply segment_congr
  intro i hi
  unfold framePayloadInPlace
  rw [hkept]
  · rcases Nat.eq_zero_or_pos frame with rfl | hpos
    · rw [hsame]
      · simp
      · intro f hfirst _
        have hmul := Nat.le_mul_of_pos_left (maxPayload + headerSize) hfirst
        exact .inl (by omega)
    · exact hchunks frame hpos hframe i hi
  · intro f _
    rcases Nat.lt_or_ge frame f with hlt | hge
    · have hmul := Nat.mul_le_mul_right (maxPayload + headerSize) hlt
      rw [Nat.succ_mul] at hmul
      exact .inl (by omega)
    · have hmul := Nat.mul_le_mul_right (maxPayload + headerSize) hge
      exact .inr (by omega)

/-- From a frame on, the framed buffer holds the packets of what is left of the
payload. -/
theorem segment_framesFrom (hcount : layout.packetCount = payload.length / maxPayload + 1)
    (later : Nat) (hframe : frame + later + 1 = layout.packetCount) :
    ByteMemory.segment (framePayloadInPlace buffer payload.length firstSeq layout)
        (frame * (maxPayload + headerSize))
        (payload.length - frame * maxPayload + (later + 1) * headerSize) =
      framesFrom later (firstSeq + UInt8.ofNat frame)
        (payload.drop (frame * maxPayload)) := by
  induction later generalizing frame with
  | zero =>
    have hlen : chunkLen payload.length layout.packetCount frame =
        payload.length - frame * maxPayload := if_pos (by omega)
    have hsegment : ByteMemory.segment
        (framePayloadInPlace buffer payload.length firstSeq layout)
        (frame * (maxPayload + headerSize)) _ = _ :=
      segment_frame hpayload hcount (show frame < layout.packetCount by omega)
    rw [hlen] at hsegment
    rw [framesFrom, length_drop, Nat.zero_add, Nat.one_mul,
      Nat.add_comm (payload.length - _), hsegment, take_of_length_le (by simp)]
  | succ later ih =>
    have hlen : chunkLen payload.length layout.packetCount frame = maxPayload :=
      if_neg (by omega)
    have hsegment : ByteMemory.segment
        (framePayloadInPlace buffer payload.length firstSeq layout)
        (frame * (maxPayload + headerSize)) _ = _ :=
      segment_frame hpayload hcount (show frame < layout.packetCount by omega)
    have hlater := ih (show frame + 1 + later + 1 = layout.packetCount by omega)
    have hinside := chunk_le (show frame < payload.length / maxPayload + 1 by omega)
    rw [← hcount, hlen] at hinside
    have hnext := Nat.add_one_mul frame maxPayload
    have hnext' := Nat.add_one_mul frame (maxPayload + headerSize)
    have hsplit : payload.length - frame * maxPayload + (later + 1 + 1) * headerSize =
        headerSize + maxPayload +
          (payload.length - (frame + 1) * maxPayload + (later + 1) * headerSize) := by
      rw [Nat.add_one_mul (later + 1)]
      omega
    have hseq : firstSeq + UInt8.ofNat (frame + 1) = firstSeq + UInt8.ofNat frame + 1 := by
      rw [UInt8.ofNat_add, UInt8.add_assoc]
      rfl
    have hstart : frame * (maxPayload + headerSize) + (headerSize + maxPayload) =
        (frame + 1) * (maxPayload + headerSize) := by omega
    rw [hlen] at hsegment
    rw [hsplit, segment_add, hsegment, framesFrom, drop_drop, ← hnext, ← hseq, hstart, hlater]

/-- The framed buffer holds the packets of the payload, and nothing behind them
has been touched. -/
theorem framePayloadInPlace_spec
    (hlayout : frameLayout payload.length = some layout) (firstSeq : UInt8) :
    ByteMemory.segment (framePayloadInPlace buffer payload.length firstSeq layout) 0
        layout.wireLen = frames firstSeq payload ∧
      ∀ p, layout.wireLen ≤ p →
        framePayloadInPlace buffer payload.length firstSeq layout p = buffer p := by
  have hmax : payload.length ≤ maxLogicalPayload := by
    by_contra hlt
    simp [frameLayout, Nat.lt_of_not_le hlt] at hlayout
  rw [frameLayout_eq hmax, Option.some.injEq] at hlayout
  subst hlayout
  constructor
  · have hall : ByteMemory.segment (framePayloadInPlace buffer payload.length firstSeq
        ⟨payload.length + (payload.length / maxPayload + 1) * headerSize,
          payload.length / maxPayload + 1⟩) (0 * (maxPayload + headerSize)) _ = _ :=
      segment_framesFrom hpayload rfl (payload.length / maxPayload) (by simp)
    simpa [frames] using hall
  intro p hp
  have hbefore : ∀ frame, frame < payload.length / maxPayload + 1 →
      frame * (maxPayload + headerSize) + headerSize +
        chunkLen payload.length (payload.length / maxPayload + 1) frame ≤ p := by
    intro frame hframe
    have hinside := chunk_le hframe
    have hmul := Nat.mul_le_mul_right headerSize hframe
    rw [Nat.succ_mul] at hmul
    rw [Nat.mul_add]
    dsimp only at hp
    omega
  unfold framePayloadInPlace
  rw [(writeHeaders_spec _ _ _ _ _).2 p fun frame hframe => ?_,
    (spreadChunks_spec (chunkLen_le payload.length) _ _).2 p
      fun frame _ hframe => .inr (hbefore frame hframe)]
  have hend := hbefore frame hframe
  exact .inr (by omega)

end

/-- What `frame_payload_in_place` writes is assembled to the payload again,
whatever stands before and behind it, and no proper prefix of it is taken for a
packet or for an error. -/
theorem framePayload_round_trip {limit : Nat} (hmax : payload.length ≤ maxLogicalPayload)
    (hpayload : ByteMemory.segment buffer headerSize payload.length = payload)
    (hlimit : payload.length ≤ limit) (firstSeq : UInt8) :
    ∃ layout, frameLayout payload.length = some layout ∧
      let framed := framePayloadInPlace buffer payload.length firstSeq layout
      let wire := ByteMemory.segment framed 0 layout.wireLen
      (∀ p, layout.wireLen ≤ p → framed p = buffer p) ∧
      (∀ before behind, assembleCommandLimited (before ++ wire ++ behind) before.length limit =
          .packet layout.wireLen (firstSeq + UInt8.ofNat (layout.packetCount - 1)) payload) ∧
      (∀ before front, front <+: wire → front ≠ wire →
        assembleCommandLimited (before ++ front) before.length limit = .needMore) := by
  have hlayout := frameLayout_eq hmax
  refine ⟨_, hlayout, ?_⟩
  obtain ⟨hwire, houtside⟩ := framePayloadInPlace_spec hpayload hlayout firstSeq
  dsimp only at hwire ⊢
  rw [hwire]
  refine ⟨houtside, ?_, ?_⟩
  · intro before behind
    have hassembled := assembleCommandLimited_frames
      (show before.length ≤ (before ++ frames firstSeq payload ++ behind).length by simp)
      (by rw [append_assoc, drop_left]) hlimit hmax
    rw [hassembled, length_frames, Nat.add_sub_cancel]
  · intro before front hfront hne
    exact assembleCommandLimited_prefix (by simp) drop_left hfront hne hlimit hmax

/-- A payload that fills a packet and needs an empty one behind it; the second sequence number
wraps around. -/
theorem framePayload_round_trip_two_packets : ∃ layout, frameLayout maxPayload = some layout ∧
      layout.packetCount = 2 ∧
      assembleCommandLimited (ByteMemory.segment
        (framePayloadInPlace (fun _ => 7) maxPayload 255 layout) 0 layout.wireLen) 0 maxPayload =
          .packet (maxPayload + 8) 0 (replicate maxPayload 7) := by
  have hlen : (replicate maxPayload (7 : UInt8)).length = maxPayload := length_replicate
  have hmem : ByteMemory.segment (fun _ => (7 : UInt8)) headerSize
      (replicate maxPayload (7 : UInt8)).length = replicate maxPayload 7 := by
    rw [hlen, ByteMemory.segment, map_const', length_range]
  obtain ⟨layout, hlayout, -, hround, -⟩ := framePayload_round_trip
    (show (replicate maxPayload (7 : UInt8)).length ≤ maxLogicalPayload by rw [hlen]; decide) hmem
    (show (replicate maxPayload (7 : UInt8)).length ≤ maxPayload from hlen.le) 255
  rw [hlen] at hlayout hround
  have hround := hround [] []
  obtain rfl : layout = ⟨maxPayload + 8, 2⟩ := by
    have heq : frameLayout maxPayload = some ⟨maxPayload + 8, 2⟩ := by decide
    exact Option.some.inj (hlayout.symm.trans heq)
  refine ⟨_, hlayout, rfl, ?_⟩
  rw [nil_append, append_nil] at hround
  exact hround

end

end SeekDB.Nio
