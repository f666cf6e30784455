/-
Reading does not depend on how the bytes arrive.

What matters of a connection's input is the bytes that were not consumed followed
by those the socket still has.  A call takes packets off the front of these
bytes, or waits with all of them in the buffer.
-/
import SeekDB.NioInput

namespace SeekDB.Nio

open List

variable {payloads : List (List UInt8)} {expected : Option UInt8} {inflate : Inflate}

/-! Buffers. -/

namespace InBuf

variable (buf : InBuf)

theorem length_live : buf.live.length = buf.bytes.length - buf.pos := length_drop

theorem compactBuf_pos_le : buf.compactBuf.pos ≤ buf.compactBuf.bytes.length := by
  unfold compactBuf
  simp only
  split
  · exact le_rfl
  · split
    · exact Nat.zero_le _
    · exact Nat.min_le_right _ _

@[simp] theorem live_compactBuf : buf.compactBuf.live = buf.live := by
  have hdrop : buf.bytes.drop (min buf.pos buf.bytes.length) = buf.live := by
    rcases Nat.le_total buf.pos buf.bytes.length with hle | hle
    · rw [Nat.min_eq_left hle, live]
    · rw [Nat.min_eq_right hle, live, drop_length, drop_of_length_le hle]
  unfold compactBuf
  simp only
  split
  · rename_i hend
    rw [hend, drop_length] at hdrop
    rw [← hdrop]
    rfl
  · split <;> exact hdrop

theorem live_consumeInput (amount : Nat) :
    (buf.consumeInput amount).live = buf.live.drop amount := by
  rw [consumeInput, live_compactBuf]
  simp only [live, drop_drop]
  rcases Nat.le_total amount (buf.bytes.length - buf.pos) with hle | hle
  · rw [Nat.min_eq_left hle]
  · rw [Nat.min_eq_right hle, drop_of_length_le (by omega), drop_of_length_le (by omega)]

theorem consumeInput_pos_le (amount : Nat) :
    (buf.consumeInput amount).pos ≤ (buf.consumeInput amount).bytes.length :=
  compactBuf_pos_le _

variable {buf}

theorem live_extend (hpos : buf.pos ≤ buf.bytes.length) (more : List UInt8) :
    (buf.extend more).live = buf.live ++ more :=
  drop_append_of_le_length hpos

theorem extend_pos_le (hpos : buf.pos ≤ buf.bytes.length) (more : List UInt8) :
    (buf.extend more).pos ≤ (buf.extend more).bytes.length := by
  simp only [extend, length_append]
  omega

end InBuf

/-! The socket. -/

/-- The bytes that the reads of a socket return. -/
def socketBytes (socket : List ReadResult) : List UInt8 :=
  socket.flatMap fun result => match result with
    | .data bytes => bytes
    | _ => []

/-- How often the socket has nothing to read. -/
def blocks (socket : List ReadResult) : Nat := socket.count .wouldBlock

/-- The connection is neither broken nor closed. -/
def Sound (socket : List ReadResult) : Prop :=
  ∀ result ∈ socket, result ≠ .failed ∧ result ≠ .data []

/-- A read of a sound socket. -/
inductive Reads (readLen : Nat) (socket : List ReadResult) : ReadResult → List ReadResult → Prop
  | data (bytes : List UInt8) (rest : List ReadResult) (hne : bytes ≠ [])
      (hlen : bytes.length ≤ readLen) (hbytes : socketBytes socket = bytes ++ socketBytes rest)
      (hblocks : blocks rest = blocks socket)
      (hsize : Input.socketSize rest + bytes.length ≤ Input.socketSize socket) :
      Reads readLen socket (.data bytes) rest
  | wouldBlock (rest : List ReadResult) (hbytes : socketBytes socket = socketBytes rest)
      (hblocks : rest = [] ∨ blocks rest < blocks socket)
      (hsize : Input.socketSize rest ≤ Input.socketSize socket) :
      Reads readLen socket .wouldBlock rest
  | interrupted (rest : List ReadResult) (hbytes : socketBytes socket = socketBytes rest)
      (hblocks : blocks rest = blocks socket)
      (hsize : Input.socketSize rest < Input.socketSize socket) :
      Reads readLen socket .interrupted rest

theorem readRaw_reads {readLen : Nat} (hlen : 0 < readLen) {socket : List ReadResult}
    (hsound : Sound socket) :
    Reads readLen socket (readRaw readLen socket).1 (readRaw readLen socket).2 ∧
      Sound (readRaw readLen socket).2 := by
  cases socket with
  | nil => exact ⟨.wouldBlock [] rfl (.inl rfl) le_rfl, hsound⟩
  | cons result rest =>
    have hrest : Sound rest := fun item hitem => hsound item (mem_cons_of_mem _ hitem)
    cases result with
    | data bytes =>
      cases bytes with
      | nil => exact absurd rfl (hsound _ mem_cons_self).2
      | cons byte more =>
        simp only [readRaw]
        split
        · rename_i hle
          refine ⟨.data _ _ (cons_ne_nil _ _) hle rfl ?_ ?_, hrest⟩
          · simp [blocks]
          · simp [Input.socketSize]
            omega
        have htake : ((byte :: more).take readLen).length = readLen := by
          rw [length_take]
          omega
        have hdrop : (byte :: more).drop readLen ≠ [] := by
          intro hnil
          rw [drop_eq_nil_iff] at hnil
          omega
        refine ⟨.data _ _ ?_ (Nat.le_of_eq htake) ?_ ?_ ?_, ?_⟩
        · exact ne_nil_of_length_pos (by omega)
        · simp only [socketBytes, flatMap_cons]
          rw [← append_assoc, take_append_drop]
        · simp [blocks]
        · simp only [Input.socketSize, map_cons, sum_cons, htake, length_drop]
          omega
        · intro item hitem
          rcases mem_cons.mp hitem with rfl | hin
          · exact ⟨ReadResult.noConfusion, fun heq => hdrop (ReadResult.data.inj heq)⟩
          · exact hrest item hin
    | wouldBlock =>
      refine ⟨.wouldBlock _ rfl (.inr ?_) ?_, hrest⟩
      · simp [readRaw, blocks]
      · simp [readRaw, Input.socketSize]
    | interrupted =>
      refine ⟨.interrupted _ rfl ?_ ?_, hrest⟩
      · simp [readRaw, blocks]
      · simp [readRaw, Input.socketSize]
    | failed => exact absurd rfl (hsound _ mem_cons_self).1

namespace Input

variable {budget fuel : Nat} {input : Input}

/-- What a drain leaves behind. -/
structure Drained (budget : Nat) (input : Input) (taken : List UInt8)
    (socket : List ReadResult) (stopped : Bool) : Prop where
  bytes : socketBytes input.socket = taken ++ socketBytes socket
  sound : Sound socket
  blocks_le : blocks socket ≤ blocks input.socket
  size : socketSize socket + taken.length ≤ socketSize input.socket
  full : stopped = true → budget ≤ (input.inbuf.live ++ taken).length
  blocked : stopped = false → socket = [] ∨ blocks socket < blocks input.socket

theorem drainLoop_spec (hsound : Sound input.socket)
    (hpos : input.inbuf.pos ≤ input.inbuf.bytes.length)
    (hstart : input.drainStoppedAtBudget = false) (hfuel : socketSize input.socket < fuel) :
    ∃ taken socket stopped, Drained budget input taken socket stopped ∧
      drainLoop budget fuel input =
        (true, { input with
          socket := socket
          inbuf := input.inbuf.extend taken
          drainStoppedAtBudget := stopped }) := by
  induction fuel generalizing input with
  | zero => exact absurd hfuel (Nat.not_lt_zero _)
  | succ fuel ih =>
    have hsame : input.inbuf.extend [] = input.inbuf := by simp [InBuf.extend]
    simp only [drainLoop]
    by_cases hfull : min (16 * 1024) (budget - (input.inbuf.bytes.length - input.inbuf.pos)) = 0
    · refine ⟨[], input.socket, true, ⟨rfl, hsound, Nat.le_refl _, Nat.le_refl _, ?_, ?_⟩, ?_⟩
      · intro _
        rw [append_nil, InBuf.length_live]
        omega
      · exact fun hfalse => Bool.noConfusion hfalse
      · rw [if_pos hfull, hsame]
    rw [if_neg hfull]
    obtain ⟨hreads, hrest⟩ := readRaw_reads (Nat.pos_of_ne_zero hfull) hsound
    generalize readRaw _ input.socket = read at hreads hrest ⊢
    obtain ⟨result, socket⟩ := read
    cases hreads with
    | wouldBlock _ hbytes hblocks hsize =>
      refine ⟨[], socket, false, ⟨hbytes, hrest, ?_, hsize, ?_, fun _ => hblocks⟩, ?_⟩
      · rcases hblocks with rfl | hlt
        · exact Nat.zero_le _
        · exact Nat.le_of_lt hlt
      · exact fun htrue => Bool.noConfusion htrue
      · rw [hsame, ← hstart]
    | interrupted _ hbytes hblocks hsize =>
      have hpieces := @ih { input with socket := socket } hrest hpos hstart
        (Nat.lt_of_lt_of_le hsize (Nat.le_of_lt_succ hfuel))
      obtain ⟨taken, later, stopped, hdrained, heq⟩ := hpieces
      refine ⟨taken, later, stopped, ⟨?_, hdrained.sound, ?_, ?_, hdrained.full, ?_⟩, heq⟩
      · rw [hbytes, hdrained.bytes]
      · rw [← hblocks]
        exact hdrained.blocks_le
      · exact Nat.le_trans hdrained.size (Nat.le_of_lt hsize)
      · rw [← hblocks]
        exact hdrained.blocked
    | data bytes _ hne hlen hbytes hblocks hsize =>
      simp only at hsize
      have hfewer : socketSize socket < fuel := by
        have hlong := length_pos_of_ne_nil hne
        omega
      have hpieces := @ih { input with socket := socket, inbuf := input.inbuf.extend bytes }
        hrest (InBuf.extend_pos_le hpos bytes) hstart hfewer
      obtain ⟨taken, later, stopped, hdrained, heq⟩ := hpieces
      obtain ⟨byte, more, rfl⟩ := exists_cons_of_ne_nil hne
      refine ⟨(byte :: more) ++ taken, later, stopped, ⟨?_, hdrained.sound, ?_, ?_, ?_, ?_⟩, ?_⟩
      · rw [hbytes, hdrained.bytes, append_assoc]
      · rw [← hblocks]
        exact hdrained.blocks_le
      · have hlater := hdrained.size
        simp only at hlater
        rw [length_append]
        omega
      · intro hstopped
        have hlater := hdrained.full hstopped
        rw [InBuf.live_extend hpos, append_assoc] at hlater
        exact hlater
      · rw [← hblocks]
        exact hdrained.blocked
      · simpa only [InBuf.extend, append_assoc] using heq

theorem drainSocket_spec (hsound : Sound input.socket) (compressed : Bool) : ∃ taken socket stopped,
      Drained (rawInputBudget input.maxPacketSize compressed) input taken socket stopped ∧
      ∃ inbuf, input.drainSocket compressed =
        (true, { input with
          socket := socket
          inbuf := inbuf
          drainStoppedAtBudget := stopped }) ∧
        inbuf.live = input.inbuf.live ++ taken ∧ inbuf.pos ≤ inbuf.bytes.length := by
  have hpos := input.inbuf.compactBuf_pos_le
  obtain ⟨taken, socket, stopped, hdrained, heq⟩ := @drainLoop_spec
    (rawInputBudget input.maxPacketSize compressed) (socketSize input.socket + 1)
    { input with inbuf := input.inbuf.compactBuf, drainStoppedAtBudget := false }
    hsound hpos rfl (Nat.lt_succ_self _)
  refine ⟨taken, socket, stopped,
    { hdrained with full := ?_ },
    input.inbuf.compactBuf.extend taken, heq, ?_, InBuf.extend_pos_le hpos taken⟩
  · intro hstopped
    have hfull := hdrained.full hstopped
    rw [InBuf.live_compactBuf] at hfull
    exact hfull
  · rw [InBuf.live_extend hpos, InBuf.live_compactBuf]

/-! Packets at the front of a stream. -/

/-- The commands are not longer than the connection allows. -/
def Fits (maxPacketSize : Nat) (payloads : List (List UInt8)) : Prop :=
  ∀ payload ∈ payloads, payload.length ≤ packetLimit maxPacketSize

/-- The bytes of commands that are sent one after another. -/
def stream (payloads : List (List UInt8)) : List UInt8 := payloads.flatMap (frames 0)

/-- A command as it is read. -/
def decoded (payload : List UInt8) : DecodedPacket where
  consumed := (frames 0 payload).length
  seq := UInt8.ofNat (payload.length / maxPayload)
  wireBytes := (frames 0 payload).length
  body := payload

theorem packetLimit_le (maxPacketSize : Nat) : packetLimit maxPacketSize ≤ maxLogicalPayload := by
  have hone : 1 ≤ maxLogicalPayload := by decide
  unfold packetLimit
  omega

theorem length_frames_le_budget {limit : Nat} (hlimit : limit ≤ maxLogicalPayload)
    {payload : List UInt8} (hlen : payload.length ≤ limit) (seq : UInt8) :
    (frames seq payload).length ≤ mysqlWireBudget limit := by
  have hdiv := Nat.div_le_div_right (c := maxPayload) hlen
  have hmul := Nat.mul_le_mul_right headerSize (Nat.add_le_add_right hdiv 1)
  rw [length_frames, mysqlWireBudget, Nat.min_eq_left hlimit]
  omega

theorem frames_eq_cons (seq : UInt8) (payload : List UInt8) :
    ∃ h0 h1 h2 body, frames seq payload = h0 :: h1 :: h2 :: seq :: body := by
  unfold frames
  cases payload.length / maxPayload with
  | zero | succ => exact ⟨_, _, _, _, rfl⟩

theorem firstSequenceMismatch_stream {buf : InBuf} (hlive : buf.live <+: stream payloads)
    (hexpected : ∀ seq ∈ expected, seq = 0) : firstSequenceMismatch buf expected = false := by
  unfold firstSequenceMismatch
  split
  · rename_i want _ _ _ seq tail heq
    obtain rfl := hexpected want rfl
    rw [InBuf.live, heq] at hlive
    cases payloads with
    | nil => exact absurd hlive.length_le (by simp [stream])
    | cons payload =>
      obtain ⟨h0, h1, h2, body, hframes⟩ := frames_eq_cons 0 payload
      rw [stream, flatMap_cons, hframes] at hlive
      obtain ⟨more, hmore⟩ := hlive
      simp only [cons_append, List.cons.injEq] at hmore
      simp [hmore.2.2.2.1]
  · rfl

/-- What can be assembled from the front of a stream. -/
inductive Assembles (maxPacketSize : Nat) (buf : InBuf) (payloads : List (List UInt8)) : Prop
  | packet (payload : List UInt8) (rest : List (List UInt8)) (back : List UInt8)
      (hpayloads : payloads = payload :: rest) (hlive : buf.live = frames 0 payload ++ back)
      (heq : assembleForConn maxPacketSize buf = .ok (some (decoded payload)))
  | waits (hshort : ∀ payload ∈ payloads.head?, buf.live.length < (frames 0 payload).length)
      (hbudget : buf.live.length < mysqlWireBudget (packetLimit maxPacketSize))
      (heq : assembleForConn maxPacketSize buf = .ok none)

theorem assembles_of_stream {maxPacketSize : Nat} {buf : InBuf} (hpos : buf.pos ≤ buf.bytes.length)
    (hlive : buf.live <+: stream payloads) (hfits : Fits maxPacketSize payloads) :
    Assembles maxPacketSize buf payloads := by
  have hmax := packetLimit_le maxPacketSize
  cases payloads with
  | nil =>
    have hnil : buf.live = [] := prefix_nil.mp hlive
    have hpart : ([] : List UInt8) <+: frames 0 [] := nil_prefix
    have hneed : assembleCommandLimited buf.bytes buf.pos (packetLimit maxPacketSize) = .needMore :=
      assembleCommandLimited_prefix hpos hnil hpart (by decide) (Nat.zero_le _) (Nat.zero_le _)
    have hbudget : (frames 0 []).length ≤ mysqlWireBudget (packetLimit maxPacketSize) :=
      length_frames_le_budget hmax (Nat.zero_le _) 0
    have hroom : buf.live.length < mysqlWireBudget (packetLimit maxPacketSize) := by
      rw [hnil]
      exact Nat.lt_of_lt_of_le (by decide) hbudget
    refine .waits (by simp) hroom ?_
    simp only [assembleForConn, hneed]
    rw [← buf.length_live, if_neg (Nat.not_le_of_lt hroom)]
  | cons payload rest =>
    have hfit := hfits payload mem_cons_self
    have hlogical := Nat.le_trans hfit hmax
    rcases prefix_append_cases hlive with hshort | ⟨back, hback, -⟩
    · have hpart := prefix_of_prefix_length_le hlive (prefix_append _ _) (Nat.le_of_lt hshort)
      have hneed : assembleCommandLimited buf.bytes buf.pos (packetLimit maxPacketSize) =
          .needMore :=
        assembleCommandLimited_prefix hpos rfl hpart
          (fun heq => Nat.ne_of_lt hshort (congrArg List.length heq)) hfit hlogical
      have hroom := Nat.lt_of_lt_of_le hshort (length_frames_le_budget hmax hfit 0)
      refine .waits (by simpa using hshort) hroom ?_
      simp only [assembleForConn, hneed]
      rw [← buf.length_live, if_neg (Nat.not_le_of_lt hroom)]
    · refine .packet payload rest back rfl hback ?_
      have hpacket := assembleCommandLimited_frames hpos hback hfit hlogical
      simp only [assembleForConn, hpacket, decoded, UInt8.zero_add]

/-! Calls. -/

/-- Calls of `read_packet_locked`, one after another. -/
def readCalls (inflate : Inflate) (compressed : Bool) (expected : Option UInt8) :
    Nat → Input → List (Except Unit (Option DecodedPacket)) × Input
  | 0, input => ([], input)
  | calls + 1, input =>
    let call := input.readPacketLocked inflate compressed expected
    let later := readCalls inflate compressed expected calls call.2
    (call.1 :: later.1, later.2)

/-- A call returns the next packet, or waits because the socket has no more. -/
inductive Serves (P : Input → List DecodedPacket → Prop) (input : Input) :
    List DecodedPacket → Except Unit (Option DecodedPacket) × Input → Prop
  | packet (packet : DecodedPacket) (rest : List DecodedPacket) (next : Input)
      (hnext : P next rest) (hblocks : blocks next.socket ≤ blocks input.socket) :
      Serves P input (packet :: rest) (.ok (some packet), next)
  | waits (todo : List DecodedPacket) (next : Input) (hnext : P next todo)
      (hall : next.socket = [] → todo = [])
      (hblocked : next.socket = [] ∨ blocks next.socket < blocks input.socket) :
      Serves P input todo (.ok none, next)

/-- Calls return the packets in order, and all of them when they go on after each
time that the socket had nothing to read. -/
theorem readCalls_serves {compressed : Bool} {P : Input → List DecodedPacket → Prop}
    (hcall : ∀ input todo, P input todo →
      Serves P input todo (input.readPacketLocked inflate compressed expected))
    {todo : List DecodedPacket} (hstart : P input todo) (calls : Nat) :
    ∃ (results : List (Option DecodedPacket)) (count : Nat),
      (readCalls inflate compressed expected calls input).1 = results.map .ok ∧
      results.filterMap id = todo.take count ∧
      (todo.length + blocks input.socket ≤ calls → count = todo.length) := by
  induction calls generalizing input todo with
  | zero =>
    refine ⟨[], 0, rfl, by simp, fun hle => ?_⟩
    omega
  | succ calls ih =>
    have hserves := hcall input todo hstart
    simp only [readCalls]
    generalize input.readPacketLocked inflate compressed expected = call at hserves ⊢
    cases hserves with
    | packet packet rest next hnext =>
      obtain ⟨results, count, heq, htake, hcount⟩ := ih hnext
      refine ⟨some packet :: results, count + 1, by rw [heq]; rfl, ?_, fun hle => ?_⟩
      · exact congrArg (packet :: ·) htake
      · rw [length_cons] at hle ⊢
        rw [hcount (by omega)]
    | waits _ next hnext hall hblocked =>
      obtain ⟨results, count, heq, htake, hcount⟩ := ih hnext
      refine ⟨none :: results, count, by rw [heq]; rfl, ?_, fun hle => hcount ?_⟩
      · exact htake
      · rcases hblocked with hempty | hlt
        · rw [hall hempty, hempty]
          exact Nat.zero_le _
        · omega

/-! The plain protocol. -/

/-- The connection still has to read the commands; `later` is what the peer has
not sent yet. -/
structure Pending (input : Input) (payloads : List (List UInt8)) (later : List UInt8) :
    Prop where
  pos : input.inbuf.pos ≤ input.inbuf.bytes.length
  sound : Sound input.socket
  bytes : input.inbuf.live ++ (socketBytes input.socket ++ later) = stream payloads
  fits : Fits input.maxPacketSize payloads

/-- How a call on the plain protocol ends. -/
inductive PlainCall (input : Input) (later : List UInt8) :
    List (List UInt8) → Except Unit (Option DecodedPacket) × Input → Prop
  | packet (payload : List UInt8) (rest : List (List UInt8)) (socket : List ReadResult)
      (inbuf : InBuf) (stopped : Bool)
      (hnext : Pending { input with socket := socket, inbuf := inbuf } rest later)
      (hblocks : blocks socket ≤ blocks input.socket)
      (hblocked : stopped = false → socket = [] ∨ blocks socket < blocks input.socket) :
      PlainCall input later (payload :: rest)
        (.ok (some (decoded payload)),
          { input with
            socket := socket
            inbuf := inbuf
            drainStoppedAtBudget := stopped
            reqCompressed := false })
  | waits (payloads : List (List UInt8)) (socket : List ReadResult) (inbuf : InBuf)
      (hnext : Pending { input with socket := socket, inbuf := inbuf } payloads later)
      (hshort : ∀ payload ∈ payloads.head?, inbuf.live.length < (frames 0 payload).length)
      (hblocked : socket = [] ∨ blocks socket < blocks input.socket) :
      PlainCall input later payloads
        (.ok none, { input with socket := socket, inbuf := inbuf, drainStoppedAtBudget := false })

theorem Pending.readPacketLocked {later : List UInt8} (h : Pending input payloads later)
    (hexpected : ∀ seq ∈ expected, seq = 0) :
    PlainCall input later payloads (input.readPacketLocked inflate false expected) := by
  obtain ⟨taken, socket, stopped, hdrained, inbuf, hdrain, hlive, hpos⟩ :=
    drainSocket_spec h.sound false
  have hbytes : inbuf.live ++ (socketBytes socket ++ later) = stream payloads := by
    have hall := h.bytes
    rw [hdrained.bytes] at hall
    rw [hlive, ← hall]
    simp only [append_assoc]
  have hstream : inbuf.live <+: stream payloads := ⟨_, hbytes⟩
  unfold Input.readPacketLocked
  simp only [hdrain, Bool.false_eq_true, if_false, firstSequenceMismatch_stream hstream hexpected]
  rcases assembles_of_stream hpos hstream h.fits with
    ⟨payload, rest, back, rfl, hfront, heq⟩ | ⟨hshort, hbudget, heq⟩
  · rw [heq]
    refine .packet payload rest socket _ stopped ⟨?_, hdrained.sound, ?_, ?_⟩
      hdrained.blocks_le hdrained.blocked
    · exact InBuf.consumeInput_pos_le _ _
    · rw [stream, flatMap_cons, hfront, append_assoc] at hbytes
      rw [InBuf.live_consumeInput, hfront]
      simp only [decoded, drop_left]
      exact append_cancel_left hbytes
    · exact fun item hitem => h.fits item (mem_cons_of_mem _ hitem)
  rw [heq]
  -- a drain that used up its budget would have brought a whole command
  cases stopped with
  | true =>
    have hfull := hdrained.full rfl
    rw [← hlive] at hfull
    exact absurd hbudget (Nat.not_lt_of_le hfull)
  | false =>
    exact .waits payloads socket inbuf ⟨hpos, hdrained.sound, hbytes, h.fits⟩ hshort
      (hdrained.blocked rfl)

/-- With everything sent and received, and the next command incomplete, there is
no command. -/
theorem Pending.all_received (h : Pending input payloads []) (hempty : input.socket = [])
    (hshort : ∀ payload ∈ payloads.head?, input.inbuf.live.length < (frames 0 payload).length) :
    payloads = [] := by
  cases payloads with
  | nil => rfl
  | cons payload =>
    have hlong := hshort payload rfl
    have hbytes := h.bytes
    rw [hempty, socketBytes, flatMap_nil, append_nil, append_nil] at hbytes
    rw [hbytes, stream, flatMap_cons, length_append] at hlong
    exact absurd hlong (Nat.not_lt_of_le (Nat.le_add_right _ _))

theorem readPacketLocked_plain (h : Pending input payloads [])
    (hexpected : ∀ seq ∈ expected, seq = 0) :
    Serves (fun next todo => ∃ rest, todo = rest.map decoded ∧ Pending next rest []) input
      (payloads.map decoded) (input.readPacketLocked inflate false expected) := by
  have hcall : PlainCall input [] payloads (input.readPacketLocked inflate false expected) :=
    h.readPacketLocked hexpected
  generalize input.readPacketLocked inflate false expected = call at hcall ⊢
  cases hcall with
  | packet payload rest socket inbuf stopped hnext hblocks =>
    exact .packet _ _ _ ⟨rest, rfl, { hnext with }⟩ hblocks
  | waits _ socket inbuf hnext hshort hblocked =>
    refine .waits _ _ ⟨payloads, rfl, { hnext with }⟩ ?_
      hblocked
    intro hempty
    rw [hnext.all_received hempty hshort]
    rfl

end Input

end SeekDB.Nio
