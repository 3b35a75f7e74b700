/-
Module: Plumego.Websocket.Frames
Purpose: The frames of a websocket connection: how `writeFrame` encodes a frame and how
  `readFrame` takes one off the bytes that arrive.
Trusted boundary: the buffered reader and writer pass bytes on unchanged. The bytes that arrive end
  with `io.EOF` or with another error of the connection. The mask key is any four bytes.
  Failures to write, deadlines, locks, pools and closing are left out.
Main exports: Conn, Frame, Input, MaskKey, applyMask, isValidFrameOpcode, isValidClosePayload,
  readFrame, writeFrame
-/
import Plumego.Go.Binary
import Plumego.Go.Time
import Plumego.Go.Utf8
import Plumego.Lib.Reading

namespace Plumego.Websocket

open Plumego.Go Plumego.Lib

/-! ## Errors -/

/-- `ErrPayloadTooLarge`. -/
def errPayloadTooLarge : GoError := .new "websocket: payload too large"

/-- `ErrProtocolError`. -/
def errProtocolError : GoError := .new "websocket: protocol error"

/-- `ErrUnmaskedFrame`. -/
def errUnmaskedFrame : GoError := .new "websocket: unmasked client frame"

/-- `ErrUnexpectedMaskedFrame`. -/
def errUnexpectedMaskedFrame : GoError := .new "websocket: unexpected masked server frame"

/-- `ErrFragmentedControl`. -/
def errFragmentedControl : GoError := .new "websocket: fragmented control frame"

/-- `ErrControlTooLarge`. -/
def errControlTooLarge : GoError := .new "websocket: control frame too large"

/-! ## Frames -/

/-- What `Conn` has for reading and writing frames: its side, and the limit for reading, which is
an `int64`. -/
structure Conn where
  client : Bool
  readLimit : Int
  readLimitFits : InInt64 readLimit

def opcodeContinuation : UInt8 := 0x0
def opcodeText : UInt8 := 0x1
def opcodeBinary : UInt8 := 0x2
def opcodeClose : UInt8 := 0x8
def opcodePing : UInt8 := 0x9
def opcodePong : UInt8 := 0xA
def finBit : UInt8 := 0x80
def maxControlPayload : Nat := 125

/-- A frame, as `readFrame` returns and `writeFrame` takes it. -/
structure Frame where
  op : UInt8
  fin : Bool
  payload : Bytes
deriving DecidableEq, Repr

/-- The four bytes of a mask. -/
structure MaskKey where
  key0 : UInt8
  key1 : UInt8
  key2 : UInt8
  key3 : UInt8
deriving DecidableEq, Repr

/-- `key[i%4]`. -/
def MaskKey.byteAt (key : MaskKey) (index : Nat) : UInt8 :=
  match index % 4 with
  | 0 => key.key0
  | 1 => key.key1
  | 2 => key.key2
  | _ => key.key3

def MaskKey.bytes (key : MaskKey) : Bytes := [key.key0, key.key1, key.key2, key.key3]

/-- `applyMask`: four bytes in each round of the first loop, the others in the second. -/
def applyMask (key : MaskKey) : Bytes → Bytes
  | byte0 :: byte1 :: byte2 :: byte3 :: rest =>
    (byte0 ^^^ key.key0) :: (byte1 ^^^ key.key1) :: (byte2 ^^^ key.key2) ::
      (byte3 ^^^ key.key3) :: applyMask key rest
  | tail => tail.zipIdx.map fun indexed => indexed.1 ^^^ key.byteAt indexed.2

/-- `isValidFrameOpcode`. -/
def isValidFrameOpcode (op : UInt8) : Bool :=
  op == opcodeContinuation || op == opcodeText || op == opcodeBinary || op == opcodeClose ||
    op == opcodePing || op == opcodePong

/-- `isValidCloseStatusCode`. -/
def isValidCloseStatusCode (code : Nat) : Bool :=
  code == 1000 || code == 1001 || code == 1002 || code == 1003 || code == 1007 || code == 1008 ||
    code == 1009 || code == 1011 || code == 1012 || code == 1013 || code == 1014 ||
    (decide (3000 ≤ code) && decide (code ≤ 4999))

/-- `isValidClosePayload`. -/
def isValidClosePayload (payload : Bytes) : Bool :=
  if payload.length = 0 then true
  else if payload.length = 1 then false
  else if !isValidCloseStatusCode (bigEndian (payload.take 2)) then false
  else validUTF8 (payload.drop 2)

/-! ## Reading -/

/-- The bytes that still arrive, and the error after them if it is not `io.EOF`. -/
structure Input where
  bytes : Bytes
  broken : Option GoError
deriving DecidableEq, Repr

/-- Reading from a connection. -/
abbrev Read (α : Type) := Reader GoError Input α

/-- `io.ReadFull`. A read that fails takes what was there. -/
def readBytes (count : Nat) : Read Bytes := fun input =>
  match readFull count input.bytes with
  | .ok (bytes, rest) => (.ok bytes, { input with bytes := rest })
  | .error failure => (.error (input.broken.getD failure.toError), { input with bytes := [] })

/-- The checks of the two bytes in front. -/
def checkHeader (conn : Conn) (first second : UInt8) : Read Unit :=
  if first &&& 0x70 ≠ 0 then .fail errProtocolError
  else if !isValidFrameOpcode (first &&& 0x0F) then .fail errProtocolError
  else if conn.client ∧ second &&& 0x80 ≠ 0 then .fail errUnexpectedMaskedFrame
  else if !conn.client ∧ second &&& 0x80 = 0 then .fail errUnmaskedFrame
  else pure ()

/-- The length of the payload, from the lowest seven bits of the second byte. A 64-bit length is
an `int64`, and must be positive. -/
def readLength (marker : UInt8) : Read Nat :=
  if marker = 126 then do
    let ext ← readBytes 2
    let length := bigEndian ext
    if length < 126 then .fail errProtocolError else pure length
  else if marker = 127 then do
    let ext ← readBytes 8
    let length := toInt64 (bigEndian ext)
    if length < 0 then .fail errProtocolError
    else if length ≤ 0xFFFF then .fail errProtocolError
    else pure length.toNat
  else pure marker.toNat

/-- The mask key, if there is one. -/
def readMaskKey (masked : Bool) : Read (Option MaskKey) :=
  if masked then do
    let key ← readBytes 4
    match key with
    | [key0, key1, key2, key3] => pure (some ⟨key0, key1, key2, key3⟩)
    | _ => pure none
  else pure none

/-- The payload, unmasked. -/
def readPayload (length : Nat) (key : Option MaskKey) : Read Bytes :=
  if 0 < length then do
    let payload ← readBytes length
    match key with
    | some key => pure (applyMask key payload)
    | none => pure payload
  else pure []

/-- The checks of a control frame. -/
def checkControl (frame : Frame) : Read Unit :=
  if 0x8 ≤ frame.op then
    if !frame.fin then .fail errFragmentedControl
    else if maxControlPayload < frame.payload.length then .fail errControlTooLarge
    else if frame.op = opcodeClose ∧ !isValidClosePayload frame.payload then
      .fail errProtocolError
    else pure ()
  else pure ()

/-- What `readFrame` does after the two bytes in front. -/
def readRest (conn : Conn) (first second : UInt8) : Read Frame := do
  checkHeader conn first second
  let length ← readLength (second &&& 0x7F)
  if conn.readLimit < length then
    .fail errPayloadTooLarge
  else do
    let key ← readMaskKey (decide (second &&& 0x80 ≠ 0))
    let payload ← readPayload length key
    let frame : Frame :=
      { op := first &&& 0x0F
        fin := decide (first &&& finBit ≠ 0)
        payload := payload }
    checkControl frame
    pure frame

/-- `readFrame`. -/
def readFrame (conn : Conn) : Read Frame := do
  let header ← readBytes 2
  match header with
  | [first, second] => readRest conn first second
  | _ => .fail errProtocolError

/-! ## Writing -/

/-- The second byte of a frame and the bytes of its length. -/
def lengthBytes (maskBit : UInt8) (length : Nat) : Bytes :=
  if length ≤ 125 then [maskBit ||| UInt8.ofNat length]
  else if length ≤ 0xFFFF then
    [maskBit ||| 126, UInt8.ofNat (length >>> 8), UInt8.ofNat length]
  else (maskBit ||| 127) :: putBigEndian 8 length

/-- `writeFrame`: the bytes that go out, with the mask key of a client. -/
def writeFrame (conn : Conn) (key : MaskKey) (frame : Frame) : Bytes :=
  let first : UInt8 := (if frame.fin then finBit else 0) ||| (frame.op &&& 0x0F)
  let maskBit : UInt8 := if conn.client then 0x80 else 0
  first :: lengthBytes maskBit frame.payload.length ++
    (if conn.client then key.bytes else []) ++
    (if conn.client then applyMask key frame.payload else frame.payload)

end Plumego.Websocket
