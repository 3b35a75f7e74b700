/-
Module: Plumego.Websocket.Messages
Purpose: Messages over websocket frames: how `writerPump` splits a message into frames, and how
  `ReadMessage` puts it together again from the frames that arrive.
Trusted boundary: as for the frames. The connection is open, and the queue of messages to send keeps
  their order. How many bytes `io.Copy` asks for in each call is left open. The loops run for a
  number of rounds that is a parameter. The time of the last pong is left out.
Main exports: Outbound, frames, Session, StreamReader, readMessageReader, readMessage, readMessages
-/
import Plumego.Websocket.Frames

namespace Plumego.Websocket

open Plumego.Go Plumego.Lib

/-! ## Writing -/

/-- `Outbound`. -/
structure Outbound where
  op : UInt8
  data : Bytes
deriving DecidableEq, Repr

/-- `isApplicationWriteOpcode`: what `WriteMessage` accepts. -/
def isApplicationWriteOpcode (op : UInt8) : Bool := op == opcodeText || op == opcodeBinary

/-- `maxFragmentSize`. -/
def maxFragmentSize : Nat := 65536

/-- The loop of `writerPump` over the fragments of a message, with the data from the offset on: the
fragment is the last one where no more than its size is left. -/
def fragmentsFrom (op : UInt8) (first : Bool) (data : Bytes) : List Frame :=
  if data = [] then []
  else
    ⟨if first then op else opcodeContinuation, decide (data.length ≤ maxFragmentSize),
        data.take maxFragmentSize⟩ ::
      fragmentsFrom op false (data.drop maxFragmentSize)
termination_by data.length
decreasing_by
  rename_i filled
  have positive := List.length_pos_of_ne_nil filled
  rw [List.length_drop, maxFragmentSize]
  omega

/-- The frames that `writerPump` writes for a message. -/
def frames (out : Outbound) : List Frame :=
  if out.data.length ≤ maxFragmentSize then [⟨out.op, true, out.data⟩]
  else fragmentsFrom out.op true out.data

/-! ## Reading -/

/-- What arrives, and the frames that were written in answer. -/
structure Session where
  input : Input
  replies : List Frame
deriving DecidableEq, Repr

/-- `readFrame` on a session. -/
def pull (conn : Conn) (session : Session) : Except GoError Frame × Session :=
  let (result, input) := readFrame conn session.input
  (result, { session with input := input })

/-- A frame is written in answer. -/
def Session.reply (session : Session) (op : UInt8) (payload : Bytes) : Session :=
  { session with replies := session.replies ++ [⟨op, true, payload⟩] }

/-- `io.EOF`. -/
def errEOF : GoError := ReadError.eof.toError

/-- `streamReader`. -/
structure StreamReader where
  op : UInt8
  buf : Bytes
  done : Bool
  readErr : Option GoError
  readBytes : Int
deriving DecidableEq, Repr

/-- `appendPayload`. -/
def appendPayload (conn : Conn) (sr : StreamReader) (payload : Bytes) : Except GoError StreamReader :=
  let next := wrapInt64 (sr.readBytes + payload.length)
  if 0 ≤ conn.readLimit ∧ conn.readLimit < next then .error errPayloadTooLarge
  else .ok { sr with readBytes := next, buf := sr.buf ++ payload }

/-- The reader ends with an error. -/
def StreamReader.fail (sr : StreamReader) (failure : GoError) : StreamReader :=
  { sr with readErr := some failure, done := true }

/-- The reader has the last frame of its message. -/
def StreamReader.finish (sr : StreamReader) (fin : Bool) : StreamReader :=
  if fin then { sr with done := true } else sr

/-- `streamReader.Read` into a slice of some size. -/
def StreamReader.read (conn : Conn) (size : Nat) :
    Nat → StreamReader → Session → Option (Except GoError Bytes × StreamReader × Session)
  | 0, _, _ => none
  | rounds + 1, sr, session =>
    if sr.buf ≠ [] then
      some (.ok (sr.buf.take size), { sr with buf := sr.buf.drop size }, session)
    else if sr.done then some (.error (sr.readErr.getD errEOF), sr, session)
    else
      match pull conn session with
      | (.error failure, session) => some (.error failure, sr.fail failure, session)
      | (.ok frame, session) =>
        if frame.op = opcodePing then
          StreamReader.read conn size rounds sr (session.reply opcodePong frame.payload)
        else if frame.op = opcodePong then StreamReader.read conn size rounds sr session
        else if frame.op = opcodeClose then
          some (.error errEOF, sr.fail errEOF, session.reply opcodeClose frame.payload)
        else if frame.op = opcodeContinuation then
          if sr.op = 0 then some (.error errProtocolError, sr.fail errProtocolError, session)
          else
            match appendPayload conn sr frame.payload with
            | .error failure => some (.error failure, sr.fail failure, session)
            | .ok sr => StreamReader.read conn size rounds (sr.finish frame.fin) session
        else if frame.op = opcodeText ∨ frame.op = opcodeBinary then
          if sr.op = 0 then
            match appendPayload conn { sr with op := frame.op } frame.payload with
            | .error failure =>
              some (.error failure, { sr with op := frame.op }.fail failure, session)
            | .ok sr => StreamReader.read conn size rounds (sr.finish frame.fin) session
          else some (.error errProtocolError, sr.fail errProtocolError, session)
        else StreamReader.read conn size rounds sr session

/-- A reader from the pool. -/
def freshReader : StreamReader where
  op := 0
  buf := []
  done := false
  readErr := none
  readBytes := 0

/-- `ReadMessageReader`. -/
def readMessageReader (conn : Conn) :
    Nat → Session → Option (Except GoError (UInt8 × StreamReader) × Session)
  | 0, _ => none
  | rounds + 1, session =>
    match pull conn session with
    | (.error failure, session) => some (.error failure, session)
    | (.ok frame, session) =>
      if frame.op = opcodeText ∨ frame.op = opcodeBinary then
        match appendPayload conn freshReader frame.payload with
        | .error failure => some (.error failure, session)
        | .ok sr =>
          some (.ok (frame.op,
            if frame.fin then { sr with done := true } else { sr with op := frame.op }), session)
      else if frame.op = opcodePing then
        readMessageReader conn rounds (session.reply opcodePong frame.payload)
      else if frame.op = opcodePong then readMessageReader conn rounds session
      else if frame.op = opcodeClose then
        some (.error errEOF, session.reply opcodeClose frame.payload)
      else some (.error errProtocolError, session)

/-- `io.Copy` from a reader: calls of `Read` until it returns an error, which is none for the caller if
it is `io.EOF`. -/
def copyAll (conn : Conn) (rounds : Nat) (sizes : Nat → Nat) :
    Nat → StreamReader → Session → Option (Except GoError Bytes × Session)
  | 0, _, _ => none
  | calls + 1, sr, session =>
    match sr.read conn (sizes calls + 1) rounds session with
    | none => none
    | some (.error failure, _, session) =>
      some (if failure = errEOF then .ok [] else .error failure, session)
    | some (.ok bytes, sr, session) =>
      (copyAll conn rounds sizes calls sr session).map fun later =>
        (later.1.map (bytes ++ ·), later.2)

/-- `ReadMessage`. -/
def readMessage (conn : Conn) (rounds : Nat) (sizes : Nat → Nat) (session : Session) :
    Option (Except GoError (UInt8 × Bytes) × Session) :=
  match readMessageReader conn rounds session with
  | none => none
  | some (.error failure, session) => some (.error failure, session)
  | some (.ok (op, sr), session) =>
    (copyAll conn rounds sizes rounds sr session).map fun copied =>
      (copied.1.map fun data => (op, data), copied.2)

/-- Successive calls of `ReadMessage`. -/
def readMessages (conn : Conn) (rounds : Nat) (sizes : Nat → Nat) :
    Nat → Session → Option (List (Except GoError (UInt8 × Bytes)) × Session)
  | 0, session => some ([], session)
  | count + 1, session =>
    match readMessage conn rounds sizes session with
    | none => none
    | some (result, session) =>
      (readMessages conn rounds sizes count session).map fun later =>
        (result :: later.1, later.2)

end Plumego.Websocket
