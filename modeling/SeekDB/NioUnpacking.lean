/-
Reading a command from compressed frames.

A command's packets are cut into pieces, and each piece is sent in a frame of its
own, as it is or deflated.  The connection unpacks frame after frame until the
command is complete.
-/
import SeekDB.NioReading

namespace SeekDB.Nio

open List InBuf

variable {frame : CompressedFrame} {expected : Option UInt8} {back : List UInt8}

namespace CompressedFrame

/-- A frame that a peer may send: the decoder gives back what was deflated. -/
structure Valid (inflate : Inflate) (frame : CompressedFrame) : Prop where
  plain_ne : frame.plain ≠ []
  plain_le : frame.plain.length ≤ maxPayload
  body_ne : frame.body ≠ []
  body_le : frame.body.length ≤ maxPayload
  stored : frame.deflated = false → frame.body = frame.plain
  inflates : frame.deflated = true →
    inflate frame.body (frame.plain.length + 1) = some (frame.plain, frame.body.length)

theorem length_bytes (seq : UInt8) (frame : CompressedFrame) :
    (frame.bytes seq).length = compressHeaderSize + frame.body.length := by
  simp only [bytes, lenBytes, compressHeaderSize, length_append, length_cons, length_nil]

end CompressedFrame

variable {inflate : Inflate} {buf : List UInt8} {start maxPlain : Nat} {seq : UInt8}

theorem deframeStepLimited_part (hstart : start ≤ buf.length)
    (hshort : (buf.drop start).length < compressHeaderSize) :
    deframeStepLimited inflate buf start maxPlain = .needMore := by
  unfold deframeStepLimited
  rw [if_neg (Nat.not_lt_of_le hstart)]
  split
  · rename_i heq
    rw [heq] at hshort
    simp only [length_cons, compressHeaderSize] at hshort
    omega
  · rfl

theorem deframeStepLimited_header {compLen uncompLen : Nat} {body : List UInt8}
    (hstart : start ≤ buf.length)
    (hbuf : buf.drop start = lenBytes compLen ++ seq :: lenBytes uncompLen ++ body)
    (hpos : 0 < compLen) (hcomp : compLen ≤ maxPayload) (huncomp : uncompLen ≤ maxPayload)
    (hplain : (if uncompLen = 0 then compLen else uncompLen) ≤ maxPlain) :
    deframeStepLimited inflate buf start maxPlain =
      if body.length < compLen then .needMore
      else if uncompLen = 0 then .packet (compressHeaderSize + compLen) seq (body.take compLen)
      else
        match inflate (body.take compLen) (uncompLen + 1) with
        | none => .bad
        | some (plain, totalIn) =>
          if plain.length ≠ uncompLen ∨ totalIn ≠ compLen then .bad
          else .packet (compressHeaderSize + compLen) seq plain := by
  have hne : compLen ≠ 0 := Nat.ne_of_gt hpos
  unfold deframeStepLimited
  rw [if_neg (Nat.not_lt_of_le hstart), hbuf]
  simp only [lenBytes, cons_append, nil_append, headerLen_packetHeader hcomp,
    headerLen_packetHeader huncomp]
  exact (if_neg hne).trans (if_neg (Nat.not_lt_of_le hplain))

theorem CompressedFrame.Valid.plain_len (h : frame.Valid inflate) :
    (if frame.uncompLen = 0 then frame.body.length else frame.uncompLen) = frame.plain.length := by
  have hlong := length_pos_of_ne_nil h.plain_ne
  cases hdeflated : frame.deflated with
  | false => simp [CompressedFrame.uncompLen, hdeflated, h.stored hdeflated]
  | true =>
    simp only [CompressedFrame.uncompLen, hdeflated, if_true]
    rw [if_neg (Nat.ne_of_gt hlong)]

theorem CompressedFrame.Valid.uncompLen_le (h : frame.Valid inflate) :
    frame.uncompLen ≤ maxPayload := by
  unfold CompressedFrame.uncompLen
  split
  · exact h.plain_le
  · exact Nat.zero_le _

theorem deframeStepLimited_frame
    (hstart : start ≤ buf.length) (hbuf : buf.drop start = frame.bytes seq ++ back)
    (hvalid : frame.Valid inflate) (hplain : frame.plain.length ≤ maxPlain) :
    deframeStepLimited inflate buf start maxPlain =
      .packet (frame.bytes seq).length seq frame.plain := by
  have hlong := length_pos_of_ne_nil hvalid.plain_ne
  rw [CompressedFrame.bytes, append_assoc] at hbuf
  rw [deframeStepLimited_header hstart hbuf (length_pos_of_ne_nil hvalid.body_ne)
    hvalid.body_le hvalid.uncompLen_le (by rw [hvalid.plain_len]; exact hplain),
    if_neg (by simp), take_left, CompressedFrame.length_bytes]
  cases hdeflated : frame.deflated with
  | false =>
    rw [← hvalid.stored hdeflated, if_pos (by simp [CompressedFrame.uncompLen, hdeflated])]
  | true =>
    have huncomp : frame.uncompLen = frame.plain.length := by
      simp [CompressedFrame.uncompLen, hdeflated]
    rw [huncomp, if_neg (Nat.ne_of_gt hlong), hvalid.inflates hdeflated]
    simp

theorem deframeStepLimited_short
    (hstart : start ≤ buf.length) (hpart : buf.drop start <+: frame.bytes seq)
    (hshort : (buf.drop start).length < (frame.bytes seq).length)
    (hvalid : frame.Valid inflate) (hplain : frame.plain.length ≤ maxPlain) :
    deframeStepLimited inflate buf start maxPlain = .needMore := by
  rw [CompressedFrame.length_bytes] at hshort
  rcases prefix_append_cases hpart with hheader | ⟨back, hbuf, -⟩
  · exact deframeStepLimited_part hstart hheader
  rw [deframeStepLimited_header hstart hbuf (length_pos_of_ne_nil hvalid.body_ne)
    hvalid.body_le hvalid.uncompLen_le (by rw [hvalid.plain_len]; exact hplain), if_pos]
  rw [hbuf, length_append] at hshort
  exact Nat.lt_of_add_lt_add_left hshort

namespace Input

variable {input : Input}

/-- The connection still has to read the command, if there is one, from the
frames; `total` bytes are received for it in all, and `later` is what the peer has
not sent yet. -/
structure Unpacking (inflate : Inflate) (later : List UInt8) (input : Input)
    (command : Option (List UInt8)) (todo : List CompressedFrame) (total : Nat) : Prop where
  pos : input.inbuf.pos ≤ input.inbuf.bytes.length
  innerPos : input.innerBuf.pos ≤ input.innerBuf.bytes.length
  sound : Sound input.socket
  valid : ∀ frame ∈ todo, frame.Valid inflate
  fits : Fits input.maxPacketSize command.toList
  inner : input.innerBuf.live ++ todo.flatMap CompressedFrame.plain = stream command.toList
  bytes : input.inbuf.live ++ (socketBytes input.socket ++ later) =
    compressedStream input.nextCompSeq todo
  wire : input.compressedWireBytes + (compressedStream input.nextCompSeq todo).length = total
  small : total < 2 ^ 64

variable {command : Option (List UInt8)} {todo : List CompressedFrame} {total : Nat}
  {later : List UInt8}

theorem Unpacking.compact (h : Unpacking inflate later input command todo total) :
    Unpacking inflate later input.compacted command todo total where
  pos := input.inbuf.compactBuf_pos_le
  innerPos := input.innerBuf.compactBuf_pos_le
  sound := h.sound
  valid := h.valid
  fits := h.fits
  inner := by simpa only [compacted, live_compactBuf] using h.inner
  bytes := by simpa only [compacted, live_compactBuf] using h.bytes
  wire := h.wire
  small := h.small

/-- What `deframe_compress_one` does. -/
inductive Deframes (inflate : Inflate) (later : List UInt8) (input : Input)
    (command : Option (List UInt8)) (total : Nat) : List CompressedFrame →
    Except Unit Bool × Input → Prop
  | frame (frame : CompressedFrame) (rest : List CompressedFrame) (next : Input)
      (hnext : Unpacking inflate later next command rest total)
      (hsocket : next.socket = input.socket)
      (hshorter : next.inbuf.live.length < input.inbuf.live.length) :
      Deframes inflate later input command total (frame :: rest) (.ok true, next)
  | waits (todo : List CompressedFrame)
      (hshort : ∀ frame ∈ todo.head?,
        input.inbuf.live.length < (frame.bytes input.nextCompSeq).length)
      (hbudget : input.inbuf.live.length < rawInputBudget input.maxPacketSize true) :
      Deframes inflate later input command total todo (.ok false, input.compacted)

theorem Unpacking.unpack
    {rest : List CompressedFrame} (h : Unpacking inflate later input command (frame :: rest) total)
    (hback : input.inbuf.live = frame.bytes input.nextCompSeq ++ back) :
    Unpacking inflate later
      { input with
        innerBuf := input.innerBuf.extend frame.plain
        nextCompSeq := input.nextCompSeq + 1
        inbuf := input.inbuf.consumeInput (frame.bytes input.nextCompSeq).length
        compressedWireBytes :=
          input.compressedWireBytes + (frame.bytes input.nextCompSeq).length }
      command rest total where
  pos := consumeInput_pos_le _ _
  innerPos := extend_pos_le h.innerPos _
  sound := h.sound
  valid := fun item hitem => h.valid item (mem_cons_of_mem _ hitem)
  fits := h.fits
  inner := by
    rw [live_extend h.innerPos, append_assoc]
    exact h.inner
  bytes := by
    have hbytes := h.bytes
    rw [hback, compressedStream, append_assoc] at hbytes
    rw [live_consumeInput, hback, drop_left]
    exact append_cancel_left hbytes
  wire := by
    have hwire := h.wire
    rw [compressedStream, length_append, ← Nat.add_assoc] at hwire
    exact hwire
  small := h.small

theorem Unpacking.deframeStep (h : Unpacking inflate later input command todo total)
    (maxPlain : Nat) (hmax : maxPayload ≤ maxPlain) :
    (∃ frame rest back, todo = frame :: rest ∧
      input.inbuf.live = frame.bytes input.nextCompSeq ++ back ∧
      deframeStepLimited inflate input.inbuf.bytes input.inbuf.pos maxPlain =
        .packet (frame.bytes input.nextCompSeq).length input.nextCompSeq frame.plain) ∨
    ((∀ frame ∈ todo.head?, input.inbuf.live.length < (frame.bytes input.nextCompSeq).length) ∧
      input.inbuf.live.length < rawInputBudget input.maxPacketSize true ∧
      deframeStepLimited inflate input.inbuf.bytes input.inbuf.pos maxPlain = .needMore) := by
  have hpart : input.inbuf.live <+: compressedStream input.nextCompSeq todo := ⟨_, h.bytes⟩
  have hbudget : rawInputBudget input.maxPacketSize true = compressHeaderSize + maxPayload := rfl
  cases todo with
  | nil =>
    have hnil : input.inbuf.live = [] := prefix_nil.mp hpart
    refine .inr ⟨by simp, ?_, deframeStepLimited_part h.pos ?_⟩
    · rw [hnil, hbudget]
      exact Nat.lt_of_lt_of_le (by decide) (Nat.le_add_right _ _)
    · exact Nat.lt_of_le_of_lt (Nat.le_of_eq (congrArg List.length hnil)) (by decide)
  | cons frame rest =>
    have hvalid := h.valid frame mem_cons_self
    have hplain := Nat.le_trans hvalid.plain_le hmax
    rcases prefix_append_cases hpart with hshort | ⟨back, hback, -⟩
    · have hframe := prefix_of_prefix_length_le hpart (prefix_append _ _) (Nat.le_of_lt hshort)
      refine .inr ⟨by simpa using hshort, ?_,
        deframeStepLimited_short h.pos hframe hshort hvalid hplain⟩
      rw [CompressedFrame.length_bytes] at hshort
      exact Nat.lt_of_lt_of_le hshort (Nat.add_le_add_left hvalid.body_le _)
    · exact .inl ⟨frame, rest, back, rfl, hback, deframeStepLimited_frame h.pos hback hvalid hplain⟩

theorem Unpacking.deframe (h : Unpacking inflate later input command todo total)
    (hroom : input.innerBuf.live.length < mysqlWireBudget (packetLimit input.maxPacketSize)) :
    Deframes inflate later input command total todo (input.deframeCompressOne inflate) := by
  have hcompact := h.compact
  have hlive : input.compacted.inbuf.live = input.inbuf.live := live_compactBuf _
  have hinner : input.compacted.innerBuf.live = input.innerBuf.live := live_compactBuf _
  rw [← hinner] at hroom
  unfold deframeCompressOne
  simp only [← length_live]
  have hmax : input.compacted.maxPacketSize = input.maxPacketSize := rfl
  rw [if_neg (by rw [hmax]; omega)]
  rcases hcompact.deframeStep (mysqlWireBudget (packetLimit input.compacted.maxPacketSize) +
      maxPayload - input.compacted.innerBuf.live.length) (by rw [hmax]; omega) with
    ⟨frame, rest, back, rfl, hback, heq⟩ | ⟨hshort, hbudget, heq⟩
  · have hsmall := hcompact.small
    have hwire := hcompact.wire
    rw [compressedStream, length_append] at hwire
    rw [heq]
    simp only [ne_eq, not_true_eq_false, if_false]
    rw [if_neg (by omega)]
    refine .frame _ _ _ (hcompact.unpack hback) rfl ?_
    have hheader : 0 < compressHeaderSize := by decide
    rw [live_consumeInput, hback, drop_left, ← hlive, hback, length_append,
      CompressedFrame.length_bytes]
    omega
  · rw [heq]
    rw [if_neg (Nat.not_le_of_lt hbudget)]
    rw [hlive] at hshort hbudget
    exact .waits _ hshort hbudget

/-- How a call on the compressed protocol ends. -/
inductive Unpacks (inflate : Inflate) (later : List UInt8) (input : Input) (total : Nat) :
    Option (List UInt8) → Except Unit (Option DecodedPacket) × Input → Prop
  | packet (payload : List UInt8) (next : Input)
      (hnext : Unpacking inflate later next (some payload) [] total)
      (hinner : next.innerBuf.live = frames 0 payload)
      (hblocks : blocks next.socket ≤ blocks input.socket) :
      Unpacks inflate later input total (some payload) (.ok (some (decoded payload)), next)
  | waits (command : Option (List UInt8)) (todo : List CompressedFrame) (next : Input)
      (hnext : Unpacking inflate later next command todo total)
      (hshort : ∀ frame ∈ todo.head?,
        next.inbuf.live.length < (frame.bytes next.nextCompSeq).length)
      (hincomplete : ∀ payload ∈ command, next.innerBuf.live.length < (frames 0 payload).length)
      (hblocked : next.socket = [] ∨ blocks next.socket < blocks input.socket) :
      Unpacks inflate later input total command (.ok none, next)

theorem Unpacks.mono {before : Input} {call : Except Unit (Option DecodedPacket) × Input}
    (h : Unpacks inflate later input total command call)
    (hblocks : blocks input.socket ≤ blocks before.socket) :
    Unpacks inflate later before total command call := by
  cases h with
  | packet payload next hnext hinner hle =>
    exact .packet payload next hnext hinner (Nat.le_trans hle hblocks)
  | waits _ todo next hnext hshort hincomplete hblocked =>
    exact .waits command todo next hnext hshort hincomplete
      (hblocked.imp_right fun hlt => Nat.lt_of_lt_of_le hlt hblocks)

theorem Unpacking.complete {payload : List UInt8} {rest : List (List UInt8)}
    (h : Unpacking inflate later input command todo total)
    (hcommand : command.toList = payload :: rest)
    (hinner : input.innerBuf.live = frames 0 payload ++ back) :
    command = some payload ∧ todo = [] ∧ input.innerBuf.live = frames 0 payload := by
  cases command with
  | none => exact absurd hcommand (by simp)
  | some other =>
    obtain ⟨rfl, rfl⟩ : other = payload ∧ rest = [] := by simpa using hcommand
    have hall := h.inner
    rw [hinner, Option.toList_some, stream, flatMap_singleton, append_assoc] at hall
    have hnone := append_eq_nil_iff.mp (append_right_eq_self.mp hall)
    refine ⟨rfl, ?_, by rw [hinner, hnone.1, append_nil]⟩
    cases todo with
    | nil => rfl
    | cons frame =>
      exact absurd (append_eq_nil_iff.mp hnone.2).1
        (h.valid frame mem_cons_self).plain_ne

theorem Unpacking.all_received (h : Unpacking inflate [] input command todo total)
    (hempty : input.socket = [])
    (hshort : ∀ frame ∈ todo.head?,
      input.inbuf.live.length < (frame.bytes input.nextCompSeq).length) : todo = [] := by
  cases todo with
  | nil => rfl
  | cons frame =>
    have hlong := hshort frame rfl
    have hbytes := h.bytes
    rw [hempty, socketBytes, flatMap_nil, append_nil, append_nil] at hbytes
    rw [hbytes, compressedStream, length_append] at hlong
    exact absurd hlong (Nat.not_lt_of_le (Nat.le_add_right _ _))

theorem Unpacking.none_of_incomplete (h : Unpacking inflate later input command [] total)
    (hincomplete : ∀ payload ∈ command, input.innerBuf.live.length < (frames 0 payload).length) :
    command = none := by
  cases command with
  | none => rfl
  | some payload =>
    have hlong := hincomplete payload rfl
    have hinner := h.inner
    rw [flatMap_nil, append_nil, Option.toList_some, stream, flatMap_singleton] at hinner
    rw [hinner] at hlong
    exact absurd hlong (Nat.lt_irrefl _)

theorem Unpacking.drained {taken : List UInt8} {socket : List ReadResult} {inbuf : InBuf}
    {stopped : Bool} {budget : Nat} (h : Unpacking inflate later input command todo total)
    (hdrained : Drained budget input taken socket stopped)
    (hlive : inbuf.live = input.inbuf.live ++ taken) (hpos : inbuf.pos ≤ inbuf.bytes.length) :
    Unpacking inflate later
      { input with socket := socket, inbuf := inbuf, drainStoppedAtBudget := stopped }
      command todo total where
  pos := hpos
  innerPos := h.innerPos
  sound := hdrained.sound
  valid := h.valid
  fits := h.fits
  inner := h.inner
  bytes := by
    have hall := h.bytes
    rw [hdrained.bytes, append_assoc, ← append_assoc, ← hlive] at hall
    exact hall
  wire := h.wire
  small := h.small

/-- What a round does. -/
inductive Rounds (inflate : Inflate) (later : List UInt8) (input : Input)
    (command : Option (List UInt8)) (total : Nat) : AssembleRound → Prop
  | returns {result : Except Unit (Option DecodedPacket)} {next : Input}
      (hend : Unpacks inflate later input total command (result, next)) :
      Rounds inflate later input command total (.returns result next)
  | goesOn {next : Input} (todo : List CompressedFrame)
      (hnext : Unpacking inflate later next command todo total)
      (hblocks : blocks next.socket ≤ blocks input.socket)
      (hless : 2 * socketSize next.socket + next.inbuf.live.length <
        2 * socketSize input.socket + input.inbuf.live.length) :
      Rounds inflate later input command total (.goesOn next)

theorem Unpacking.round (h : Unpacking inflate later input command todo total)
    (hexpected : ∀ seq ∈ expected, seq = 0) :
    Rounds inflate later input command total (assembleRound inflate expected input) := by
  have hstream : input.innerBuf.live <+: stream command.toList := ⟨_, h.inner⟩
  unfold assembleRound
  rw [if_neg (by rw [firstSequenceMismatch_stream hstream hexpected]; decide)]
  rcases assembles_of_stream h.innerPos hstream h.fits with
    ⟨payload, rest, back, hcommand, hfront, heq⟩ | ⟨hincomplete, hroom, heq⟩
  · obtain ⟨rfl, rfl, hinner⟩ := h.complete hcommand hfront
    rw [heq]
    exact .returns (.packet payload input h hinner le_rfl)
  rw [heq]
  have hdeframes := h.deframe hroom
  generalize input.deframeCompressOne inflate = deframed at hdeframes ⊢
  cases hdeframes with
  | frame frame rest next hnext hsocket =>
    refine .goesOn rest hnext (Nat.le_of_eq (congrArg blocks hsocket)) ?_
    rw [hsocket]
    omega
  | waits _ hshort hbudget =>
    have hlive : input.compacted.inbuf.live = input.inbuf.live := live_compactBuf _
    obtain ⟨taken, socket, stopped, hdrained, inbuf, hdrain, hbytes, hpos⟩ :=
      drainSocket_spec h.compact.sound true
    have hnext := h.compact.drained hdrained hbytes hpos
    have hlen := congrArg List.length hbytes
    rw [length_append, hlive] at hlen
    simp only [hdrain, assembleDrained, ← length_live, hlive]
    split_ifs with hnothing
    · have hroom : stopped = false := by
        cases stopped with
        | false => rfl
        | true =>
          have hfull := hdrained.full rfl
          rw [← hbytes, hnothing] at hfull
          exact absurd hbudget (Nat.not_lt_of_le hfull)
      refine .returns (.waits command todo _ hnext ?_ ?_ (hdrained.blocked hroom))
      · intro frame hframe
        simp only [hnothing]
        exact hshort frame hframe
      intro payload hpayload
      have hinner : input.compacted.innerBuf.live = input.innerBuf.live :=
        live_compactBuf _
      simp only [hinner]
      exact hincomplete payload (by rw [hpayload]; rfl)
    · refine .goesOn todo hnext hdrained.blocks_le ?_
      have hsize : socketSize socket + taken.length ≤ socketSize input.socket := hdrained.size
      simp only
      omega

theorem assembleCompressedLoop_unpacks {fuel : Nat}
    (h : Unpacking inflate later input command todo total) (hexpected : ∀ seq ∈ expected, seq = 0)
    (hfuel : 2 * socketSize input.socket + input.inbuf.live.length < fuel) :
    Unpacks inflate later input total command
      (assembleCompressedLoop inflate expected fuel input) := by
  induction fuel generalizing input todo with
  | zero => exact absurd hfuel (Nat.not_lt_zero _)
  | succ fuel ih =>
    have hround := h.round hexpected
    rw [assembleCompressedLoop]
    generalize assembleRound inflate expected input = round at hround ⊢
    cases hround with
    | returns hend => exact hend
    | goesOn todo hnext hblocks => exact (ih hnext (by omega)).mono hblocks

/-- The packet of a command that was sent in compressed frames. -/
def unpacked (total : Nat) (payload : List UInt8) : DecodedPacket :=
  { decoded payload with wireBytes := total }

theorem readPacketLocked_compressed
    (h : Unpacking inflate [] input command todo total) (hexpected : ∀ seq ∈ expected, seq = 0) :
    Serves (fun next packets => ∃ command todo total,
        packets = (command.map (unpacked total)).toList ∧
          Unpacking inflate [] next command todo total)
      input (command.map (unpacked total)).toList
      (input.readPacketLocked inflate true expected) := by
  have hlen : input.inbuf.live.length ≤ input.inbuf.bytes.length := by
    rw [length_live]
    exact Nat.sub_le _ _
  have hunpacks := assembleCompressedLoop_unpacks h hexpected
    (Nat.lt_succ_of_le (Nat.add_le_add_left hlen (2 * socketSize input.socket)))
  unfold readPacketLocked assembleCompressedForConn
  generalize assembleCompressedLoop inflate expected _ input = call at hunpacks ⊢
  cases hunpacks with
  | packet payload next hnext hinner hblocks =>
    have hwire : next.compressedWireBytes = total := hnext.wire
    simp only [hwire]
    refine .packet _ _ _ ⟨none, [], 0, rfl, ?_⟩ hblocks
    refine ⟨hnext.pos, consumeInput_pos_le _ _, hnext.sound, by simp, by simp [Fits],
      ?_, hnext.bytes, rfl, by decide⟩
    rw [live_consumeInput, hinner]
    simp [decoded, stream]
  | waits _ todo next hnext hshort hincomplete hblocked =>
    refine .waits _ _ ⟨command, todo, total, rfl, hnext⟩ (fun hempty => ?_) hblocked
    obtain rfl := hnext.all_received hempty hshort
    rw [hnext.none_of_incomplete hincomplete]
    rfl

/-- A frame is for at least one byte, so that the frames of a command cannot be
too many to count their bytes. -/
theorem length_compressedStream_le (seq : UInt8) (hvalid : ∀ frame ∈ todo, frame.Valid inflate) :
    (compressedStream seq todo).length ≤
      (todo.flatMap CompressedFrame.plain).length * (compressHeaderSize + maxPayload) := by
  induction todo generalizing seq with
  | nil => exact Nat.zero_le _
  | cons frame rest ih =>
    have hframe := hvalid frame mem_cons_self
    have hrest := ih (seq + 1) (fun item hitem => hvalid item (mem_cons_of_mem _ hitem))
    have hbody := Nat.add_le_add_left hframe.body_le compressHeaderSize
    have hpos := Nat.le_mul_of_pos_left (compressHeaderSize + maxPayload)
      (length_pos_of_ne_nil hframe.plain_ne)
    rw [compressedStream, length_append, CompressedFrame.length_bytes, flatMap_cons,
      length_append, Nat.add_mul]
    omega

theorem length_compressedStream_lt {payload : List UInt8}
    (hlen : payload.length ≤ maxLogicalPayload) (hvalid : ∀ frame ∈ todo, frame.Valid inflate)
    (hplain : todo.flatMap CompressedFrame.plain = frames 0 payload) (seq : UInt8) :
    (compressedStream seq todo).length < 2 ^ 64 := by
  have hle := length_compressedStream_le seq hvalid
  have hbudget := length_frames_le_budget le_rfl hlen 0
  rw [hplain] at hle
  calc (compressedStream seq todo).length
      ≤ (frames 0 payload).length * (compressHeaderSize + maxPayload) := hle
    _ ≤ mysqlWireBudget maxLogicalPayload * (compressHeaderSize + maxPayload) :=
        Nat.mul_le_mul_right _ hbudget
    _ < 2 ^ 64 := by decide

/-- Commands are read whole, in order and without an error, however the bytes of
the stream arrive; and so is one command that is sent in compressed frames. -/
theorem read_packets_any_pieces (inflate : Inflate) {maxPacketSize : Nat}
    {expected : Option UInt8} (hexpected : ∀ seq ∈ expected, seq = 0)
    {socket : List ReadResult} (hsound : Sound socket) (calls : Nat) :
    (∀ payloads, Fits maxPacketSize payloads → socketBytes socket = stream payloads →
      ∃ (results : List (Option DecodedPacket)) (count : Nat),
        (readCalls inflate false expected calls (.new maxPacketSize socket)).1 = results.map .ok ∧
        results.filterMap id = (payloads.map decoded).take count ∧
        (payloads.length + blocks socket ≤ calls → count = payloads.length)) ∧
    (∀ payload todo, payload.length ≤ packetLimit maxPacketSize →
      (∀ frame ∈ todo, frame.Valid inflate) →
      todo.flatMap CompressedFrame.plain = frames 0 payload →
      socketBytes socket = compressedStream 0 todo →
      ∃ (results : List (Option DecodedPacket)) (count : Nat),
        (readCalls inflate true expected calls (.new maxPacketSize socket)).1 = results.map .ok ∧
        results.filterMap id = [unpacked (compressedStream 0 todo).length payload].take count ∧
        (1 + blocks socket ≤ calls → count = 1)) := by
  constructor
  · intro payloads hfits hbytes
    have hstart : Pending (.new maxPacketSize socket) payloads [] :=
      ⟨Nat.le_refl _, hsound, (append_nil _).trans hbytes, hfits⟩
    have hlength : (payloads.map decoded).length = payloads.length := length_map _
    rw [← hlength]
    exact readCalls_serves
      (P := fun next todo => ∃ rest, todo = rest.map decoded ∧ Pending next rest [])
      (by
        rintro input _ ⟨rest, rfl, hpending⟩
        exact readPacketLocked_plain hpending hexpected)
      ⟨payloads, rfl, hstart⟩ calls
  · intro payload todo hlen hvalid hplain hbytes
    have hlogical := Nat.le_trans hlen (packetLimit_le maxPacketSize)
    have hfits : Fits maxPacketSize (some payload).toList := by
      intro item hitem
      rw [mem_singleton.mp hitem]
      exact hlen
    have hstart : Unpacking inflate [] (.new maxPacketSize socket) (some payload) todo
        (compressedStream 0 todo).length := by
      refine ⟨Nat.le_refl _, Nat.le_refl _, hsound, hvalid, hfits, ?_,
        (append_nil _).trans hbytes, Nat.zero_add _,
        length_compressedStream_lt hlogical hvalid hplain 0⟩
      rw [Option.toList_some, stream, flatMap_singleton, ← hplain]
      rfl
    exact readCalls_serves
      (P := fun next packets => ∃ command todo total,
        packets = (command.map (unpacked total)).toList ∧
          Unpacking inflate [] next command todo total)
      (by
        rintro input _ ⟨command, todo, total, rfl, hunpacking⟩
        exact readPacketLocked_compressed hunpacking hexpected)
      ⟨some payload, todo, _, rfl, hstart⟩ calls

/-- A deflated body that is read back only as a whole. -/
def inflateFive : Inflate := fun body _ => if body = [120, 5] then some ([0, 7], 2) else none

/-- A command of one byte that arrives in two pieces, plain and in a stored and a deflated
frame. -/
theorem read_packets_any_pieces_two : (∃ (results : List (Option DecodedPacket)) (count : Nat),
      (readCalls (fun _ _ => none) false (some 0) 2
        (.new 16 [.data [1, 0], .wouldBlock, .data [0, 0, 7]])).1 = results.map .ok ∧
      results.filterMap id = [decoded [7]].take count ∧ (2 ≤ 2 → count = 1)) ∧
    (∃ (results : List (Option DecodedPacket)) (count : Nat),
      (readCalls inflateFive true (some 0) 2
        (.new 16 [.data [3, 0, 0, 0, 0, 0, 0, 1, 0, 0, 2], .wouldBlock,
          .data [0, 0, 1, 2, 0, 0, 120, 5]])).1 = results.map .ok ∧
      results.filterMap id = [unpacked 19 [7]].take count ∧ (2 ≤ 2 → count = 1)) := by
  have hone : Fits 16 [[7]] := by
    intro payload hpayload
    rw [mem_singleton.mp hpayload]
    decide
  have hframes : ∀ frame ∈ [(⟨[1, 0, 0], [1, 0, 0], false⟩ : CompressedFrame),
      ⟨[0, 7], [120, 5], true⟩], frame.Valid inflateFive := by
    intro frame hframe
    rcases mem_pair.mp hframe with rfl | rfl
    · exact ⟨by decide, by decide, by decide, by decide, fun _ => rfl, by decide⟩
    · exact ⟨by decide, by decide, by decide, by decide, by decide, fun _ => rfl⟩
  have hzero : ∀ seq ∈ (some 0 : Option UInt8), seq = 0 := by
    intro seq hseq
    exact (Option.some_inj.mp hseq).symm
  exact ⟨(read_packets_any_pieces _ hzero (by simp [Sound]) 2).1 [[7]] hone (by decide),
    (read_packets_any_pieces _ hzero (by simp [Sound]) 2).2 [7] _ (by decide) hframes
      (by decide) (by decide)⟩

end Input

end SeekDB.Nio
