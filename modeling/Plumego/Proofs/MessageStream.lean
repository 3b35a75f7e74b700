/-
Module: Plumego.Proofs.MessageStream
Purpose: What one side writes as messages the other reads as the same messages, with any pings and
  pongs between the frames.
Trusted boundary: as for the messages
Main exports: Interleaved, Streaming, copyAll_spec, readMessage_spec, messages_round_trip
-/
import Plumego.Proofs.FrameCodec
import Plumego.Websocket.Messages

namespace Plumego.Websocket

open Plumego.Go Plumego.Lib

/-! ## What is on the wire -/

/-- A complete ping or pong. -/
structure PingPong (frame : Frame) : Prop where
  op : frame.op = opcodePing ∨ frame.op = opcodePong
  fin : frame.fin = true
  short : frame.payload.length ≤ maxControlPayload

/-- Frames on the wire, each with its mask key: some frames in order, with pings and pongs between
them. -/
inductive Interleaved : List (MaskKey × Frame) → List Frame → Prop where
  | nil : Interleaved [] []
  | control {key : MaskKey} {frame : Frame} {wire : List (MaskKey × Frame)} {data : List Frame}
      (pingPong : PingPong frame) (rest : Interleaved wire data) : Interleaved ((key, frame) :: wire) data
  | data {key : MaskKey} {frame : Frame} {wire : List (MaskKey × Frame)} {data : List Frame}
      (rest : Interleaved wire data) : Interleaved ((key, frame) :: wire) (frame :: data)

/-- The bytes of frames. -/
def wireBytes (writer : Conn) (wire : List (MaskKey × Frame)) : Bytes :=
  wire.flatMap fun sent => writeFrame writer sent.1 sent.2

/-- A session on which frames arrive. -/
def carrying (writer : Conn) (broken : Option GoError) (wire : List (MaskKey × Frame))
    (replies : List Frame) : Session :=
  ⟨⟨wireBytes writer wire, broken⟩, replies⟩

/-- A frame of a message. -/
def Frame.isData (frame : Frame) : Prop :=
  frame.op = opcodeContinuation ∨ frame.op = opcodeText ∨ frame.op = opcodeBinary

section Pulling

variable {writer reader : Conn} {key : MaskKey} {frame : Frame} {wire : List (MaskKey × Frame)}
  {broken : Option GoError} {replies : List Frame}

theorem pull_frame (opposite : reader.client = !writer.client)
    (valid : isValidFrameOpcode frame.op = true)
    (fits : (frame.payload.length : Int) ≤ reader.readLimit)
    (checked : ∀ input, checkControl frame input = (.ok (), input)) :
    pull reader (carrying writer broken ((key, frame) :: wire) replies) =
      (.ok frame, carrying writer broken wire replies) := by
  have bytes : wireBytes writer ((key, frame) :: wire) =
      writeFrame writer key frame ++ wireBytes writer wire := List.flatMap_cons
  have found : readFrame reader ⟨wireBytes writer ((key, frame) :: wire), broken⟩ =
      (.ok frame, ⟨wireBytes writer wire, broken⟩) := by
    rw [bytes, readFrame_writeFrame opposite key valid fits, Reader.bind_of_ok (checked _)]
    rfl
  unfold pull carrying
  dsimp only
  rw [found]

theorem pull_data (opposite : reader.client = !writer.client) (isData : frame.isData)
    (fits : (frame.payload.length : Int) ≤ reader.readLimit) :
    pull reader (carrying writer broken ((key, frame) :: wire) replies) =
      (.ok frame, carrying writer broken wire replies) := by
  have small : isValidFrameOpcode frame.op = true ∧ ¬ 0x8 ≤ frame.op := by
    rcases isData with same | same | same <;> rw [same] <;> decide
  refine pull_frame opposite small.1 fits fun input => ?_
  unfold checkControl
  rw [if_neg small.2]
  rfl

theorem pull_pingPong (opposite : reader.client = !writer.client) (pingPong : PingPong frame)
    (fits : (frame.payload.length : Int) ≤ reader.readLimit) :
    pull reader (carrying writer broken ((key, frame) :: wire) replies) =
      (.ok frame, carrying writer broken wire replies) := by
  have control : isValidFrameOpcode frame.op = true ∧ 0x8 ≤ frame.op ∧ frame.op ≠ opcodeClose := by
    rcases pingPong.op with same | same <;> rw [same] <;> decide
  refine pull_frame opposite control.1 fits fun input => ?_
  unfold checkControl
  rw [if_pos control.2.1, pingPong.fin, if_neg (by decide), if_neg (Nat.not_lt.mpr pingPong.short),
    if_neg (fun close => control.2.2 close.1)]
  rfl

end Pulling

/-! ## The stream of one message -/

section Streams

variable {writer reader : Conn} (broken : Option GoError)

/-- A payload within the limit is added to the buffer. -/
theorem appendPayload_of_fits {sr : StreamReader} {payload : Bytes} (nonneg : 0 ≤ sr.readBytes)
    (fits : sr.readBytes + payload.length ≤ reader.readLimit) :
    appendPayload reader sr payload =
      .ok { sr with readBytes := sr.readBytes + payload.length, buf := sr.buf ++ payload } := by
  have limit := reader.readLimitFits.2
  have noWrap : wrapInt64 (sr.readBytes + payload.length) = sr.readBytes + payload.length :=
    wrapInt64_of_inInt64 ⟨by omega, by omega⟩
  unfold appendPayload
  rw [noWrap, if_neg (fun exceeds => by omega)]

/-- A reader in the middle of a message passes over pings and pongs to the next fragment, and returns
the front of it. -/
theorem StreamReader.read_next (opposite : reader.client = !writer.client)
    {wire : List (MaskKey × Frame)} {fin : Bool} {chunk : Bytes} {later : List Frame}
    (interleaved : Interleaved wire (⟨opcodeContinuation, fin, chunk⟩ :: later))
    (controls : ∀ sent ∈ wire, PingPong sent.2 → (sent.2.payload.length : Int) ≤ reader.readLimit)
    {sr : StreamReader} (emptied : sr.buf = []) (unfinished : sr.done = false) (started : sr.op ≠ 0)
    (nonneg : 0 ≤ sr.readBytes) (fits : sr.readBytes + chunk.length ≤ reader.readLimit)
    (filled : chunk ≠ []) (size : Nat) {rounds : Nat} (enough : wire.length < rounds)
    (replies : List Frame) :
    ∃ rest answers, Interleaved rest later ∧ rest.length ≤ wire.length ∧ (∀ sent ∈ rest, sent ∈ wire) ∧
      sr.read reader size rounds (carrying writer broken wire replies) =
        some (.ok (chunk.take size),
          { sr with
            buf := chunk.drop size
            readBytes := sr.readBytes + chunk.length
            done := fin },
          carrying writer broken rest answers) := by
  induction wire generalizing rounds replies with
  | nil => cases interleaved
  | cons sent wire ih =>
    obtain ⟨rounds, rfl⟩ := Nat.exists_eq_succ_of_ne_zero (Nat.ne_zero_of_lt enough)
    rw [List.length_cons] at enough
    have fewer : wire.length < rounds := by omega
    rw [StreamReader.read, if_neg (not_not.mpr emptied), unfinished, if_neg Bool.false_ne_true]
    cases interleaved with
    | @control key frame _ _ pingPong rest =>
      have within := controls (key, frame) List.mem_cons_self pingPong
      have others := List.forall_mem_of_forall_mem_cons controls
      rw [pull_pingPong opposite pingPong within]
      dsimp only
      by_cases isPing : frame.op = opcodePing
      · rw [if_pos isPing]
        obtain ⟨final, answers, again, shorter, among, readEq⟩ :=
          ih rest others fewer
            (replies ++ [⟨opcodePong, true, frame.payload⟩])
        exact ⟨final, answers, again, Nat.le_succ_of_le shorter,
          fun other member => List.mem_cons_of_mem _ (among other member), readEq⟩
      · rw [if_neg isPing, if_pos (pingPong.op.resolve_left isPing)]
        obtain ⟨final, answers, again, shorter, among, readEq⟩ :=
          ih rest others fewer replies
        exact ⟨final, answers, again, Nat.le_succ_of_le shorter,
          fun other member => List.mem_cons_of_mem _ (among other member), readEq⟩
    | @data key _ _ _ rest =>
      rw [pull_data opposite (.inl rfl) (by dsimp only; omega)]
      dsimp only
      rw [if_neg (by decide), if_neg (by decide), if_neg (by decide), if_pos rfl, if_neg started,
        appendPayload_of_fits nonneg fits]
      dsimp only
      refine ⟨wire, replies, rest, Nat.le_succ _, fun other => List.mem_cons_of_mem _, ?_⟩
      -- the fragment is in the buffer now, so the next round returns
      obtain ⟨rounds, rfl⟩ := Nat.exists_eq_succ_of_ne_zero (n := rounds) (by omega)
      cases fin with
      | true =>
        rw [StreamReader.finish, if_pos rfl, StreamReader.read, emptied, List.nil_append,
          if_pos filled]
      | false =>
        rw [StreamReader.finish, if_neg Bool.false_ne_true, StreamReader.read, emptied,
          List.nil_append, if_pos filled, unfinished]

/-- A reader with some bytes in its buffer and some data of the message still to come. -/
structure Streaming (reader : Conn) (sr : StreamReader) (buffered data : Bytes) : Prop where
  buf : sr.buf = buffered
  done : sr.done = decide (data = [])
  readErr : sr.readErr = none
  started : data ≠ [] → sr.op ≠ 0
  nonneg : 0 ≤ sr.readBytes
  fits : sr.readBytes + data.length ≤ reader.readLimit

theorem drop_eq_nil_iff_fits (data : Bytes) :
    decide (data.length ≤ maxFragmentSize) = decide (data.drop maxFragmentSize = []) := by
  rw [decide_eq_decide, List.drop_eq_nil_iff]

/-- `io.Copy` gets what is in the buffer and all that is still to come. -/
theorem copyAll_spec (opposite : reader.client = !writer.client) (sizes : Nat → Nat) (op : UInt8)
    {rounds : Nat} (calls : Nat) {wire : List (MaskKey × Frame)} (enough : wire.length < rounds)
    (controls : ∀ sent ∈ wire, PingPong sent.2 → (sent.2.payload.length : Int) ≤ reader.readLimit)
    {buffered data : Bytes} {later : List Frame}
    (interleaved : Interleaved wire (fragmentsFrom op false data ++ later)) {sr : StreamReader}
    (streaming : Streaming reader sr buffered data)
    (remaining : buffered.length + data.length < calls) (replies : List Frame) :
    ∃ rest answers, Interleaved rest later ∧ rest.length ≤ wire.length ∧ (∀ sent ∈ rest, sent ∈ wire) ∧
      copyAll reader rounds sizes calls sr (carrying writer broken wire replies) =
        some (.ok (buffered ++ data), carrying writer broken rest answers) := by
  induction calls generalizing wire buffered data sr replies with
  | zero => exact absurd remaining (Nat.not_lt_zero _)
  | succ calls ih =>
    obtain ⟨buf, done, readErr, started, nonneg, fits⟩ := streaming
    obtain ⟨before, roundsEq⟩ := Nat.exists_eq_succ_of_ne_zero (Nat.ne_zero_of_lt enough)
    rw [copyAll]
    by_cases empty : buffered = []
    · by_cases finished : data = []
      · -- all was read: the reader returns `io.EOF`
        subst empty finished
        refine ⟨wire, replies, ?_, Nat.le_refl _, fun _ member => member, ?_⟩
        · rwa [fragmentsFrom, if_pos rfl, List.nil_append] at interleaved
        · rw [roundsEq, StreamReader.read, if_neg (not_not.mpr buf), done,
            if_pos (decide_eq_true rfl), readErr]
          rfl
      · -- the next fragment is taken off the wire
        subst empty
        have unfinished : sr.done = false := by rw [done, decide_eq_false finished]
        rw [fragmentsFrom, if_neg finished, List.cons_append, if_neg Bool.false_ne_true] at interleaved
        have chunkFilled : data.take maxFragmentSize ≠ [] := by
          intro none
          rw [List.take_eq_nil_iff] at none
          exact none.elim (fun zero => by cases zero) finished
        have parts : (data.take maxFragmentSize).length + (data.drop maxFragmentSize).length =
            data.length := by
          rw [← List.length_append, List.take_append_drop]
        have chunkLength := List.length_pos_of_ne_nil chunkFilled
        obtain ⟨rest, answers, again, shorter, among, readEq⟩ :=
          StreamReader.read_next broken opposite interleaved controls buf unfinished
            (started finished) nonneg (by omega) chunkFilled (sizes calls + 1) enough replies
        rw [readEq]
        dsimp only
        have onward : Streaming reader
            { sr with
              buf := (data.take maxFragmentSize).drop (sizes calls + 1)
              readBytes := sr.readBytes + (data.take maxFragmentSize).length
              done := decide (data.length ≤ maxFragmentSize) }
            ((data.take maxFragmentSize).drop (sizes calls + 1)) (data.drop maxFragmentSize) :=
          ⟨rfl, drop_eq_nil_iff_fits data, readErr, fun _ => started finished, by
            dsimp only; omega, by dsimp only; omega⟩
        have fewer : ((data.take maxFragmentSize).drop (sizes calls + 1)).length +
            (data.drop maxFragmentSize).length < calls := by
          rw [List.length_drop]
          rw [List.length_nil] at remaining
          omega
        obtain ⟨final, replied, finally_, shorterStill, amongStill, copied⟩ :=
          ih (lt_of_le_of_lt shorter enough)
            (fun sent member => controls sent (among sent member)) again onward fewer answers
        refine ⟨final, replied, finally_, shorterStill.trans shorter,
          fun sent member => among sent (amongStill sent member), ?_⟩
        rw [copied, Option.map_some]
        dsimp only [Except.map]
        rw [← List.append_assoc, List.take_append_drop, List.take_append_drop, List.nil_append]
    · -- the buffer is returned first
      have filled : sr.buf ≠ [] := fun none => empty (buf.symm.trans none)
      rw [roundsEq, StreamReader.read, if_pos filled, buf, ← roundsEq]
      dsimp only
      have onward : Streaming reader { sr with buf := buffered.drop (sizes calls + 1) }
          (buffered.drop (sizes calls + 1)) data :=
        ⟨rfl, done, readErr, started, nonneg, fits⟩
      have fewer : (buffered.drop (sizes calls + 1)).length + data.length < calls := by
        have positive := List.length_pos_of_ne_nil empty
        rw [List.length_drop]
        omega
      obtain ⟨final, replied, finally_, shorter, among, copied⟩ :=
        ih enough controls interleaved onward fewer replies
      refine ⟨final, replied, finally_, shorter, among, ?_⟩
      rw [copied, Option.map_some]
      dsimp only [Except.map]
      rw [← List.append_assoc, List.take_append_drop]

/-! ## Messages -/

/-- The first frame of a message and the data that follows in further ones. -/
theorem frames_eq (out : Outbound) :
    ∃ chunk rest, out.data = chunk ++ rest ∧
      frames out = ⟨out.op, decide (rest = []), chunk⟩ :: fragmentsFrom out.op false rest := by
  unfold frames
  by_cases small : out.data.length ≤ maxFragmentSize
  · refine ⟨out.data, [], (List.append_nil _).symm, ?_⟩
    rw [if_pos small, fragmentsFrom, if_pos rfl]
    rfl
  · have filled : out.data ≠ [] := fun none => small (by rw [none]; exact Nat.zero_le _)
    refine ⟨out.data.take maxFragmentSize, out.data.drop maxFragmentSize,
      (List.take_append_drop _ _).symm, ?_⟩
    rw [if_neg small, fragmentsFrom, if_neg filled, if_pos rfl, drop_eq_nil_iff_fits]

/-- The first frame of a message, past pings and pongs. -/
theorem readMessageReader_spec (opposite : reader.client = !writer.client)
    {wire : List (MaskKey × Frame)} {op : UInt8} {chunk rest : Bytes} {later : List Frame}
    (application : isApplicationWriteOpcode op = true)
    (interleaved : Interleaved wire (⟨op, decide (rest = []), chunk⟩ :: later))
    (controls : ∀ sent ∈ wire, PingPong sent.2 → (sent.2.payload.length : Int) ≤ reader.readLimit)
    (fits : ((chunk ++ rest).length : Int) ≤ reader.readLimit) {rounds : Nat}
    (enough : wire.length < rounds) (replies : List Frame) :
    ∃ after answers sr, Interleaved after later ∧ after.length ≤ wire.length ∧
      (∀ sent ∈ after, sent ∈ wire) ∧ Streaming reader sr chunk rest ∧
      readMessageReader reader rounds (carrying writer broken wire replies) =
        some (.ok (op, sr), carrying writer broken after answers) := by
  have opEq : op = opcodeText ∨ op = opcodeBinary := by
    simpa [isApplicationWriteOpcode] using application
  have notZero : op ≠ 0 := by rcases opEq with same | same <;> rw [same] <;> decide
  rw [List.length_append, Nat.cast_add] at fits
  induction wire generalizing rounds replies with
  | nil => cases interleaved
  | cons sent wire ih =>
    obtain ⟨rounds, rfl⟩ := Nat.exists_eq_succ_of_ne_zero (Nat.ne_zero_of_lt enough)
    rw [List.length_cons] at enough
    have fewer : wire.length < rounds := by omega
    rw [readMessageReader]
    cases interleaved with
    | @control key frame _ _ pingPong remaining =>
      have within := controls (key, frame) List.mem_cons_self pingPong
      have others := List.forall_mem_of_forall_mem_cons controls
      have notData : ¬ (frame.op = opcodeText ∨ frame.op = opcodeBinary) := by
        rcases pingPong.op with same | same <;> rw [same] <;> decide
      rw [pull_pingPong opposite pingPong within]
      dsimp only
      rw [if_neg notData]
      by_cases isPing : frame.op = opcodePing
      · rw [if_pos isPing]
        obtain ⟨after, answers, sr, again, shorter, among, streaming, readEq⟩ :=
          ih remaining others fewer
            (replies ++ [⟨opcodePong, true, frame.payload⟩])
        exact ⟨after, answers, sr, again, Nat.le_succ_of_le shorter,
          fun other member => List.mem_cons_of_mem _ (among other member), streaming, readEq⟩
      · rw [if_neg isPing, if_pos (pingPong.op.resolve_left isPing)]
        obtain ⟨after, answers, sr, again, shorter, among, streaming, readEq⟩ :=
          ih remaining others fewer replies
        exact ⟨after, answers, sr, again, Nat.le_succ_of_le shorter,
          fun other member => List.mem_cons_of_mem _ (among other member), streaming, readEq⟩
    | @data key _ _ _ remaining =>
      rw [pull_data opposite (.inr opEq) (by dsimp only; omega)]
      dsimp only
      have start : (0 : Int) ≤ freshReader.readBytes := Int.le_refl 0
      have startFits : freshReader.readBytes + (chunk.length : Int) ≤ reader.readLimit := by
        have zero : freshReader.readBytes = 0 := rfl
        omega
      rw [if_pos opEq, appendPayload_of_fits start startFits]
      refine ⟨wire, replies, _, remaining, Nat.le_succ _, fun other => List.mem_cons_of_mem _, ?_, rfl⟩
      have zero : (0 : Int) + chunk.length + rest.length ≤ reader.readLimit := by omega
      by_cases last : rest = []
      · rw [decide_eq_true last, if_pos rfl]
        exact ⟨rfl, (decide_eq_true last).symm, rfl, fun more => absurd last more,
          Int.add_nonneg (Int.le_refl 0) (Int.natCast_nonneg _), zero⟩
      · rw [decide_eq_false last, if_neg Bool.false_ne_true]
        exact ⟨rfl, (decide_eq_false last).symm, rfl, fun _ => notZero,
          Int.add_nonneg (Int.le_refl 0) (Int.natCast_nonneg _), zero⟩

/-- One call of `ReadMessage` gets the next message. -/
theorem readMessage_spec (opposite : reader.client = !writer.client) (sizes : Nat → Nat)
    {wire : List (MaskKey × Frame)} {out : Outbound} {later : List Frame}
    (application : isApplicationWriteOpcode out.op = true)
    (interleaved : Interleaved wire (frames out ++ later))
    (controls : ∀ sent ∈ wire, PingPong sent.2 → (sent.2.payload.length : Int) ≤ reader.readLimit)
    (fits : (out.data.length : Int) ≤ reader.readLimit) {rounds : Nat}
    (enough : wire.length < rounds) (calls : out.data.length < rounds) (replies : List Frame) :
    ∃ after answers, Interleaved after later ∧ after.length ≤ wire.length ∧
      (∀ sent ∈ after, sent ∈ wire) ∧
      readMessage reader rounds sizes (carrying writer broken wire replies) =
        some (.ok (out.op, out.data), carrying writer broken after answers) := by
  obtain ⟨chunk, rest, split, framesEq⟩ := frames_eq out
  rw [framesEq, List.cons_append] at interleaved
  rw [split] at fits calls
  obtain ⟨middle, between, sr, onward, shorter, among, streaming, readEq⟩ :=
    readMessageReader_spec broken opposite application interleaved controls fits enough replies
  rw [List.length_append] at calls
  obtain ⟨after, answers, again, shorterStill, amongStill, copied⟩ :=
    copyAll_spec broken opposite sizes out.op rounds (lt_of_le_of_lt shorter enough)
      (fun sent member => controls sent (among sent member)) onward streaming calls between
  refine ⟨after, answers, again, shorterStill.trans shorter,
    fun sent member => among sent (amongStill sent member), ?_⟩
  rw [readMessage, readEq]
  dsimp only
  rw [copied, split]
  rfl

/-- For all messages that `WriteMessage` accepts, split as `writerPump` does, with any mask keys and any
complete pings and pongs between the frames, and a reader on the other side whose limit holds each
message and each ping and pong: with enough rounds, as many calls of `ReadMessage` return the same
opcodes and payloads in the same order. -/
theorem messages_round_trip (writer reader : Conn) (opposite : reader.client = !writer.client)
    (messages : List Outbound)
    (application : ∀ out ∈ messages, isApplicationWriteOpcode out.op = true)
    (wire : List (MaskKey × Frame)) (interleaved : Interleaved wire (messages.flatMap frames))
    (fits : ∀ out ∈ messages, (out.data.length : Int) ≤ reader.readLimit)
    (controls : ∀ sent ∈ wire, PingPong sent.2 → (sent.2.payload.length : Int) ≤ reader.readLimit)
    (broken : Option GoError) (replies : List Frame) (sizes : Nat → Nat) (rounds : Nat)
    (enough : wire.length < rounds) (calls : ∀ out ∈ messages, out.data.length < rounds) :
    ∃ final, readMessages reader rounds sizes messages.length
        ⟨⟨wireBytes writer wire, broken⟩, replies⟩ =
      some (messages.map fun out => .ok (out.op, out.data), final) := by
  induction messages generalizing wire replies with
  | nil => exact ⟨_, rfl⟩
  | cons out messages ih =>
    rw [List.flatMap_cons] at interleaved
    obtain ⟨after, answers, again, shorter, among, readEq⟩ :=
      readMessage_spec broken opposite sizes (application out List.mem_cons_self) interleaved
        controls (fits out List.mem_cons_self) enough (calls out List.mem_cons_self) replies
    obtain ⟨final, readLater⟩ := ih
      (List.forall_mem_of_forall_mem_cons application) after again
      (List.forall_mem_of_forall_mem_cons fits)
      (fun sent member => controls sent (among sent member)) answers
      (lt_of_le_of_lt shorter enough)
      (List.forall_mem_of_forall_mem_cons calls)
    refine ⟨final, ?_⟩
    have readFirst : readMessage reader rounds sizes ⟨⟨wireBytes writer wire, broken⟩, replies⟩ =
        some (.ok (out.op, out.data), ⟨⟨wireBytes writer after, broken⟩, answers⟩) := readEq
    rw [List.length_cons, readMessages, readFirst]
    dsimp only
    rw [readLater]
    rfl

end Streams

/-- A ping between two messages, the first of them empty. -/
def pingBetween : List (MaskKey × Frame) :=
  [(⟨1, 2, 3, 4⟩, ⟨opcodeText, true, []⟩), (⟨0, 0, 0, 0⟩, ⟨opcodePing, true, ascii "ping"⟩),
    (⟨5, 6, 7, 8⟩, ⟨opcodeBinary, true, ascii "data"⟩)]

theorem messages_round_trip_ping :
    ∃ final, readMessages serverConn 5 (fun _ => 1) 2
        ⟨⟨wireBytes clientConn pingBetween, none⟩, []⟩ =
      some ([.ok (opcodeText, []), .ok (opcodeBinary, ascii "data")], final) := by
  refine messages_round_trip clientConn serverConn rfl
    [⟨opcodeText, []⟩, ⟨opcodeBinary, ascii "data"⟩] (by decide) pingBetween ?_ (by decide) ?_ none []
    (fun _ => 1) 5 (by decide) (by decide)
  · exact .data (.control ⟨.inl rfl, rfl, by decide⟩ (.data .nil))
  · have short : ∀ sent ∈ pingBetween, (sent.2.payload.length : Int) ≤ serverConn.readLimit := by
      decide
    exact fun sent member _ => short sent member

end Plumego.Websocket
