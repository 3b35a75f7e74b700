/-
Module: Plumego.Proofs.FrameCodec
Purpose: The two directions of the websocket frame codec: what `writeFrame` emits reads back on the
  other side, and what `readFrame` accepts is what `writeFrame` emits for it.
Trusted boundary: none
Main exports: applyMask_applyMask, readFrame_writeFrame, writeFrame_of_readFrame, readFrame_codec
-/
import Mathlib.Data.LawfulXor.Basic
import Plumego.Websocket.Frames

namespace Plumego.Websocket

open Plumego.Go Plumego.Lib

/-! ## Bytes -/

/-- A property of all bytes, checked on each. -/
theorem forall_byte {property : UInt8 → Prop}
    (each : ∀ value < 256, property (UInt8.ofNat value)) (byte : UInt8) : property byte := by
  have holds := each byte.toNat byte.toNat_lt
  rwa [UInt8.ofNat_toNat] at holds

/-- The first byte of a frame without reserved bits is made of its flag and its opcode. -/
theorem firstByte_eq (byte : UInt8) : byte &&& 0x70 = 0 →
    (if decide (byte &&& finBit ≠ 0) then finBit else 0) ||| (byte &&& 0x0F &&& 0x0F) = byte := by
  revert byte
  exact forall_byte (by decide +kernel)

/-- The second byte of a frame is made of its flag and the lowest seven bits. -/
theorem secondByte_eq (byte : UInt8) :
    (if decide (byte &&& 0x80 ≠ 0) then 0x80 else 0) ||| (byte &&& 0x7F) = byte := by
  revert byte
  exact forall_byte (by decide +kernel)

theorem firstByte_of_valid (fin : Bool) (op : UInt8) : isValidFrameOpcode op = true →
    ((if fin then finBit else 0) ||| (op &&& 0x0F)) &&& 0x70 = 0 ∧
      ((if fin then finBit else 0) ||| (op &&& 0x0F)) &&& 0x0F = op ∧
      decide (((if fin then finBit else 0) ||| (op &&& 0x0F)) &&& finBit ≠ 0) = fin := by
  revert op
  apply forall_byte
  cases fin <;> decide +kernel

theorem secondByte_of_flag (client : Bool) : ∀ marker < 128,
    ((if client then 0x80 else 0) ||| UInt8.ofNat marker) &&& 0x7F = UInt8.ofNat marker ∧
      decide (((if client then 0x80 else 0) ||| UInt8.ofNat marker) &&& 0x80 ≠ 0) = client := by
  cases client <;> decide +kernel

theorem lowBits_lt (byte : UInt8) : (byte &&& 0x7F).toNat < 128 := by
  revert byte
  exact forall_byte (by decide +kernel)

/-! ## The mask -/

/-- Masking twice gives the payload back, in the unrolled loop and in the rest. -/
theorem applyMask_applyMask (key : MaskKey) : ∀ payload : Bytes,
    applyMask key (applyMask key payload) = payload
  | [] => rfl
  | [_] => by simp [applyMask]
  | [_, _] => by simp [applyMask]
  | [_, _, _] => by simp [applyMask]
  | _ :: _ :: _ :: _ :: rest => by
      simp [applyMask, applyMask_applyMask key rest]

theorem length_applyMask (key : MaskKey) : ∀ payload : Bytes,
    (applyMask key payload).length = payload.length
  | [] => rfl
  | [_] => rfl
  | [_, _] => rfl
  | [_, _, _] => rfl
  | _ :: _ :: _ :: _ :: rest => by simp [applyMask, length_applyMask key rest]

/-! ## Reading bytes -/

theorem readBytes_append {count : Nat} {front : Bytes} (length : front.length = count)
    (rest : Bytes) (broken : Option GoError) :
    readBytes count ⟨front ++ rest, broken⟩ = (.ok front, ⟨rest, broken⟩) := by
  unfold readBytes
  rw [readFull_append rest length]

/-- A read that succeeds takes so many bytes off the front. -/
theorem of_readBytes {count : Nat} {input rest : Input} {bytes : Bytes}
    (ok : readBytes count input = (.ok bytes, rest)) :
    bytes.length = count ∧ input.bytes = bytes ++ rest.bytes ∧ rest.broken = input.broken := by
  unfold readBytes readFull at ok
  split_ifs at ok with enough empty
  · simp only [Prod.mk.injEq, Except.ok.injEq] at ok
    obtain ⟨rfl, rfl⟩ := ok
    exact ⟨List.length_take_of_le enough, (List.take_append_drop count input.bytes).symm, rfl⟩
  · simp at ok
  · simp at ok

/-! ## The length -/

theorem lengthBytes_two (length : Nat) :
    [UInt8.ofNat (length >>> 8), UInt8.ofNat length] = putBigEndian 2 length := by
  simp [putBigEndian, Nat.shiftRight_eq_div_pow]

/-- The length that `writeFrame` writes reads back. -/
theorem readLength_lengthBytes (client : Bool) {length : Nat} (fits : length < 2 ^ 63) :
    ∃ second ext, lengthBytes (if client then 0x80 else 0) length = second :: ext ∧
      decide (second &&& 0x80 ≠ 0) = client ∧
      ∀ rest broken, readLength (second &&& 0x7F) ⟨ext ++ rest, broken⟩ =
        (.ok length, ⟨rest, broken⟩) := by
  unfold lengthBytes
  by_cases short : length ≤ 125
  · obtain ⟨low, flag⟩ := secondByte_of_flag client length (by omega)
    rw [if_pos short]
    refine ⟨_, [], rfl, flag, fun rest broken => ?_⟩
    have value : (UInt8.ofNat length).toNat = length := by
      rw [UInt8.toNat_ofNat', Nat.mod_eq_of_lt (by omega)]
    have not126 : UInt8.ofNat length ≠ 126 := fun same => by
      rw [same] at value
      exact absurd short (by rw [← value]; decide)
    have not127 : UInt8.ofNat length ≠ 127 := fun same => by
      rw [same] at value
      exact absurd short (by rw [← value]; decide)
    rw [low, readLength, if_neg not126, if_neg not127, value]
    rfl
  · rw [if_neg short]
    by_cases medium : length ≤ 0xFFFF
    · obtain ⟨low, flag⟩ := secondByte_of_flag client 126 (by decide)
      rw [if_pos medium]
      refine ⟨_, _, rfl, flag, fun rest broken => ?_⟩
      have value : bigEndian (putBigEndian 2 length) = length :=
        bigEndian_putBigEndian_of_lt (by omega)
      have notSmall : ¬ length < 126 := by omega
      show readLength (((if client then 0x80 else 0) ||| UInt8.ofNat 126) &&& 0x7F) _ = _
      rw [low, lengthBytes_two, readLength, if_pos (show UInt8.ofNat 126 = 126 by decide),
        Reader.bind_of_ok (readBytes_append (length_putBigEndian 2 length) rest broken), value,
        if_neg notSmall]
      rfl
    · obtain ⟨low, flag⟩ := secondByte_of_flag client 127 (by decide)
      rw [if_neg medium]
      refine ⟨_, _, rfl, flag, fun rest broken => ?_⟩
      have value : bigEndian (putBigEndian 8 length) = length :=
        bigEndian_putBigEndian_of_lt (by omega)
      have signed : toInt64 length = length :=
        wrapInt64_of_inInt64 ⟨by omega, by exact_mod_cast fits⟩
      have positive : ¬ ((length : Int) < 0) := by omega
      have large : ¬ ((length : Int) ≤ 0xFFFF) := by omega
      show readLength (((if client then 0x80 else 0) ||| UInt8.ofNat 127) &&& 0x7F) _ = _
      rw [low, readLength, if_neg (show UInt8.ofNat 127 ≠ 126 by decide),
        if_pos (show UInt8.ofNat 127 = 127 by decide),
        Reader.bind_of_ok (readBytes_append (length_putBigEndian 8 length) rest broken), value,
        signed, if_neg positive, if_neg large]
      rfl

/-- A length that `readLength` accepts is written with the bytes that were read. -/
theorem lengthBytes_of_readLength {second : UInt8} {input rest : Input} {length : Nat}
    (ok : readLength (second &&& 0x7F) input = (.ok length, rest)) :
    ∃ ext, lengthBytes (if decide (second &&& 0x80 ≠ 0) then 0x80 else 0) length =
        second :: ext ∧
      input.bytes = ext ++ rest.bytes ∧ rest.broken = input.broken := by
  have whole := secondByte_eq second
  have low := lowBits_lt second
  unfold readLength at ok
  unfold lengthBytes
  by_cases two : second &&& 0x7F = 126
  · rw [if_pos two] at ok
    obtain ⟨ext, middle, readExt, ok⟩ := Reader.bind_eq_ok.mp ok
    obtain ⟨width, bytes, broken⟩ := of_readBytes readExt
    have bound := bigEndian_lt ext
    rw [width] at bound
    split at ok
    · simp at ok
    · rename_i notSmall
      obtain ⟨rfl, rfl⟩ := Reader.pure_eq_ok.mp ok
      have back := putBigEndian_bigEndian ext
      rw [width] at back
      rw [if_neg (by omega), if_pos (by omega)]
      refine ⟨ext, ?_, bytes, broken⟩
      rw [two] at whole
      rw [lengthBytes_two, back, whole]
  · rw [if_neg two] at ok
    by_cases eight : second &&& 0x7F = 127
    · rw [if_pos eight] at ok
      obtain ⟨ext, middle, readExt, ok⟩ := Reader.bind_eq_ok.mp ok
      obtain ⟨width, bytes, broken⟩ := of_readBytes readExt
      have bound := bigEndian_lt ext
      rw [width] at bound
      split at ok
      · simp at ok
      · split at ok
        · simp at ok
        · rename_i positive large
          obtain ⟨rfl, rfl⟩ := Reader.pure_eq_ok.mp ok
          -- a 64-bit length that is positive as an `int64` is the number that was read
          have signed : toInt64 (bigEndian ext) = bigEndian ext := by
            unfold toInt64 wrapInt64 at positive ⊢
            rw [Int.bmod_def] at positive ⊢
            split at positive <;> split <;> omega
          have back := putBigEndian_bigEndian ext
          rw [width] at back
          rw [signed] at large ⊢
          rw [Int.toNat_natCast, if_neg (by omega), if_neg (by omega)]
          refine ⟨ext, ?_, bytes, broken⟩
          rw [eight] at whole
          rw [back, whole]
    · rw [if_neg eight] at ok
      obtain ⟨rfl, rfl⟩ := Reader.pure_eq_ok.mp ok
      have short : (second &&& 0x7F).toNat ≤ 125 := by
        have not126 : (second &&& 0x7F).toNat ≠ 126 := fun same => two (UInt8.toNat_inj.mp same)
        have not127 : (second &&& 0x7F).toNat ≠ 127 := fun same => eight (UInt8.toNat_inj.mp same)
        omega
      rw [if_pos short]
      refine ⟨[], ?_, rfl, rfl⟩
      rw [UInt8.ofNat_toNat, whole]

/-! ## The mask key and the payload -/

/-- What `writeFrame` emits for the mask key and the payload reads back. -/
theorem readPayload_written (client : Bool) (key : MaskKey) (payload rest : Bytes)
    (broken : Option GoError) :
    ∃ found, readMaskKey client
        ⟨(if client then key.bytes else []) ++ ((if client then applyMask key payload else payload) ++
          rest), broken⟩ =
        (.ok found, ⟨(if client then applyMask key payload else payload) ++ rest, broken⟩) ∧
      readPayload payload.length found
        ⟨(if client then applyMask key payload else payload) ++ rest, broken⟩ =
        (.ok payload, ⟨rest, broken⟩) := by
  cases client with
  | false =>
    refine ⟨none, rfl, ?_⟩
    unfold readPayload
    split
    · exact Reader.bind_of_ok (readBytes_append rfl rest broken)
    · rename_i empty
      obtain rfl := List.length_eq_zero_iff.mp (Nat.eq_zero_of_not_pos empty)
      rfl
  | true =>
    have keyBytes := @readBytes_append 4 key.bytes rfl (applyMask key payload ++ rest) broken
    refine ⟨some key, Reader.bind_of_ok keyBytes, ?_⟩
    unfold readPayload
    split
    · rw [if_pos rfl, Reader.bind_of_ok
        (readBytes_append (length_applyMask key payload) rest broken)]
      show (Except.ok (applyMask key (applyMask key payload)), _) = _
      rw [applyMask_applyMask]
    · rename_i empty
      obtain rfl := List.length_eq_zero_iff.mp (Nat.eq_zero_of_not_pos empty)
      rfl

/-- A mask key and a payload that were read are what `writeFrame` emits for them. -/
theorem written_of_readPayload {masked : Bool} {input middle rest : Input} {length : Nat}
    {found : Option MaskKey} {payload : Bytes} (readKey : readMaskKey masked input = (.ok found, middle))
    (read : readPayload length found middle = (.ok payload, rest)) :
    ∃ key : MaskKey, payload.length = length ∧
      input.bytes = (if masked then key.bytes else []) ++
        ((if masked then applyMask key payload else payload) ++ rest.bytes) ∧
      rest.broken = input.broken := by
  have keyOf : ∃ key : MaskKey, (masked = true → found = some key) ∧
      (masked = false → found = none) ∧
      input.bytes = (if masked then key.bytes else []) ++ middle.bytes ∧
      middle.broken = input.broken := by
    unfold readMaskKey at readKey
    cases masked with
    | false =>
      obtain ⟨rfl, rfl⟩ := Reader.pure_eq_ok.mp readKey
      exact ⟨⟨0, 0, 0, 0⟩, nofun, fun _ => rfl, rfl, rfl⟩
    | true =>
      obtain ⟨bytes, after, readKey, ok⟩ := Reader.bind_eq_ok.mp readKey
      obtain ⟨four, split, broken⟩ := of_readBytes readKey
      match bytes, four with
      | [key0, key1, key2, key3], _ =>
        obtain ⟨rfl, rfl⟩ := Reader.pure_eq_ok.mp ok
        exact ⟨⟨key0, key1, key2, key3⟩, fun _ => rfl, nofun, split, broken⟩
  obtain ⟨key, isSome, isNone, bytes, broken⟩ := keyOf
  unfold readPayload at read
  split at read
  · obtain ⟨raw, after, readRaw, ok⟩ := Reader.bind_eq_ok.mp read
    obtain ⟨width, split, brokenAfter⟩ := of_readBytes readRaw
    cases masked with
    | false =>
      rw [isNone rfl] at ok
      obtain ⟨rfl, rfl⟩ := Reader.pure_eq_ok.mp ok
      exact ⟨key, width, by rw [bytes, split]; rfl, brokenAfter.trans broken⟩
    | true =>
      rw [isSome rfl] at ok
      obtain ⟨rfl, rfl⟩ := Reader.pure_eq_ok.mp ok
      refine ⟨key, (length_applyMask key raw).trans width, ?_, brokenAfter.trans broken⟩
      rw [bytes, split, if_pos rfl, if_pos rfl, applyMask_applyMask]
  · rename_i empty
    obtain ⟨rfl, rfl⟩ := Reader.pure_eq_ok.mp read
    refine ⟨key, (Nat.eq_zero_of_not_pos empty).symm, ?_, broken⟩
    rw [bytes]
    cases masked <;> rfl

/-! ## Whole frames -/

/-- `readFrame` on what the other side emits: the checks of a control frame decide. -/
theorem readFrame_writeFrame {writer reader : Conn} (opposite : reader.client = !writer.client)
    (key : MaskKey) {frame : Frame} (valid : isValidFrameOpcode frame.op = true)
    (fits : (frame.payload.length : Int) ≤ reader.readLimit) (rest : Bytes)
    (broken : Option GoError) :
    readFrame reader ⟨writeFrame writer key frame ++ rest, broken⟩ =
      (checkControl frame >>= fun _ => pure frame) ⟨rest, broken⟩ := by
  have short : frame.payload.length < 2 ^ 63 := by
    have limit := reader.readLimitFits.2
    omega
  obtain ⟨second, ext, lengthEq, flag, lengthOk⟩ := readLength_lengthBytes writer.client short
  obtain ⟨found, keyOk, payloadOk⟩ :=
    readPayload_written writer.client key frame.payload rest broken
  have firstFacts := firstByte_of_valid frame.fin frame.op valid
  have bytes : writeFrame writer key frame ++ rest =
      [(if frame.fin then finBit else 0) ||| (frame.op &&& 0x0F), second] ++ (ext ++
        ((if writer.client then key.bytes else []) ++
          ((if writer.client then applyMask key frame.payload else frame.payload) ++ rest))) := by
    unfold writeFrame
    dsimp only
    rw [lengthEq]
    simp
  rw [bytes]
  generalize (if frame.fin then finBit else 0) ||| (frame.op &&& 0x0F) = first at firstFacts
  generalize (if writer.client then applyMask key frame.payload else frame.payload) ++ rest = tail
    at keyOk payloadOk ⊢
  generalize (if writer.client then key.bytes else []) ++ tail = body at keyOk ⊢
  obtain ⟨reserved, op, fin⟩ := firstFacts
  have header : checkHeader reader first second ⟨ext ++ body, broken⟩ =
      (.ok (), ⟨ext ++ body, broken⟩) := by
    unfold checkHeader
    rw [op]
    cases side : writer.client <;> simp_all [pure]
  have within : ¬ reader.readLimit < (frame.payload.length : Int) := Int.not_lt.mpr fits
  unfold readFrame
  rw [Reader.bind_of_ok (@readBytes_append 2 [first, second] rfl (ext ++ body) broken)]
  show readRest reader first second _ = _
  unfold readRest
  rw [Reader.bind_of_ok header, Reader.bind_of_ok (lengthOk body broken), if_neg within, flag,
    Reader.bind_of_ok keyOk, Reader.bind_of_ok payloadOk, op, fin]

theorem of_checkHeader {conn : Conn} {first second : UInt8} {input rest : Input}
    (ok : checkHeader conn first second input = (.ok (), rest)) :
    rest = input ∧ first &&& 0x70 = 0 ∧ isValidFrameOpcode (first &&& 0x0F) = true ∧
      decide (second &&& 0x80 ≠ 0) = !conn.client := by
  unfold checkHeader at ok
  split at ok
  · simp at ok
  split at ok
  · simp at ok
  split at ok
  · simp at ok
  split at ok
  · simp at ok
  rename_i reserved opcode masked unmasked
  obtain ⟨_, rfl⟩ := Reader.pure_eq_ok.mp ok
  refine ⟨rfl, by simpa using reserved, by simpa using opcode, ?_⟩
  cases side : conn.client <;> simp_all

/-- What `readFrame` accepts is a frame within the limit, and is what the other side emits for it
with some mask key. -/
theorem writeFrame_of_readFrame {writer reader : Conn} (opposite : reader.client = !writer.client)
    {input rest : Input} {frame : Frame} (ok : readFrame reader input = (.ok frame, rest)) :
    isValidFrameOpcode frame.op = true ∧ (frame.payload.length : Int) ≤ reader.readLimit ∧
      ∃ key, input.bytes = writeFrame writer key frame ++ rest.bytes ∧
        rest.broken = input.broken := by
  unfold readFrame at ok
  obtain ⟨header, afterHeader, readHeader, readBody⟩ := Reader.bind_eq_ok.mp ok
  obtain ⟨two, headerBytes, headerBroken⟩ := of_readBytes readHeader
  match header, two with
  | [first, second], _ =>
    replace readBody : readRest reader first second afterHeader = (.ok frame, rest) := readBody
    unfold readRest at readBody
    obtain ⟨_, afterCheck, checked, fromLength⟩ := Reader.bind_eq_ok.mp readBody
    obtain ⟨same, reserved, opcode, side⟩ := of_checkHeader checked
    obtain ⟨length, afterLength, readLen, fromLimit⟩ := Reader.bind_eq_ok.mp fromLength
    obtain ⟨ext, lengthEq, lengthSplit, lengthBroken⟩ := lengthBytes_of_readLength readLen
    split at fromLimit
    · simp at fromLimit
    rename_i within
    obtain ⟨found, afterKey, readKey, fromPayload⟩ := Reader.bind_eq_ok.mp fromLimit
    obtain ⟨payload, afterPayload, readPay, fromControl⟩ := Reader.bind_eq_ok.mp fromPayload
    obtain ⟨key, width, bodySplit, bodyBroken⟩ := written_of_readPayload readKey readPay
    obtain ⟨_, afterControl, control, done⟩ := Reader.bind_eq_ok.mp fromControl
    obtain ⟨rfl, rfl⟩ := Reader.pure_eq_ok.mp done
    have unchanged : afterControl = afterPayload := by
      unfold checkControl at control
      split_ifs at control <;> simp_all
    subst same unchanged
    have client : decide (second &&& 0x80 ≠ 0) = writer.client := by
      rw [side, opposite, Bool.not_not]
    rw [client] at lengthEq bodySplit
    refine ⟨opcode, ?_, key, ?_, bodyBroken.trans (lengthBroken.trans headerBroken)⟩
    · show (payload.length : Int) ≤ _
      rw [width]
      exact Int.not_lt.mp within
    unfold writeFrame
    dsimp only
    rw [headerBytes, lengthSplit, bodySplit, width, lengthEq, firstByte_eq first reserved]
    simp

/-- The mask key of a client is among the bytes it emits. -/
theorem maskKey_of_writeFrame {writer : Conn} (client : writer.client = true)
    {key other : MaskKey} {frame : Frame}
    (same : writeFrame writer key frame = writeFrame writer other frame) : key = other := by
  unfold writeFrame at same
  simp only [client, if_true, List.append_assoc] at same
  obtain ⟨_, body⟩ := List.append_inj same rfl
  obtain ⟨bytes, _⟩ := List.append_inj body rfl
  cases key
  cases other
  simp only [MaskKey.bytes, List.cons.injEq, and_true] at bytes
  obtain ⟨rfl, rfl, rfl, rfl⟩ := bytes
  rfl

/-! ## What the protocol allows -/

/-- The status codes that a close frame may carry: those that RFC 6455, section 7.4, defines for it,
1010 being one for clients, those registered later, and those of libraries and applications. -/
def rfcCloseCode (client : Bool) (code : Nat) : Bool :=
  [1000, 1001, 1002, 1003, 1007, 1008, 1009, 1011, 1012, 1013, 1014].contains code ||
    (client && code == 1010) || (decide (3000 ≤ code) && decide (code ≤ 4999))

/-- A payload that RFC 6455 allows for a close frame. -/
def rfcClosePayload (client : Bool) (payload : Bytes) : Bool :=
  payload.isEmpty || (decide (2 ≤ payload.length) &&
    rfcCloseCode client (bigEndian (payload.take 2)) && validUTF8 (payload.drop 2))

/-- A frame that RFC 6455 allows a side to send. -/
structure RfcAllowed (client : Bool) (frame : Frame) : Prop where
  opcode : frame.op ∈ [opcodeContinuation, opcodeText, opcodeBinary, opcodeClose, opcodePing,
    opcodePong]
  control : frame.op ∈ [opcodeClose, opcodePing, opcodePong] →
    frame.fin = true ∧ frame.payload.length ≤ 125
  close : frame.op = opcodeClose → rfcClosePayload client frame.payload = true

/-- A close frame with the status code 1010. -/
def MandatoryExtension (frame : Frame) : Prop :=
  frame.op = opcodeClose ∧ 2 ≤ frame.payload.length ∧ bigEndian (frame.payload.take 2) = 1010

theorem valid_of_rfcAllowed {client : Bool} {frame : Frame} (allowed : RfcAllowed client frame) :
    isValidFrameOpcode frame.op = true := by
  have opcode := allowed.opcode
  simp only [List.mem_cons, List.not_mem_nil, or_false] at opcode
  unfold isValidFrameOpcode
  rcases opcode with same | same | same | same | same | same <;> rw [same] <;> rfl

theorem isValidCloseStatusCode_of_rfc {client : Bool} {code : Nat}
    (allowed : rfcCloseCode client code = true) :
    isValidCloseStatusCode code = true ↔ code ≠ 1010 := by
  unfold rfcCloseCode at allowed
  unfold isValidCloseStatusCode
  simp only [List.contains_eq_mem, List.mem_cons, List.not_mem_nil, or_false, Bool.or_eq_true,
    decide_eq_true_eq, Bool.and_eq_true, beq_iff_eq] at allowed ⊢
  omega

theorem isValidClosePayload_of_rfc {client : Bool} {payload : Bytes}
    (allowed : rfcClosePayload client payload = true) :
    isValidClosePayload payload = true ↔
      ¬ (2 ≤ payload.length ∧ bigEndian (payload.take 2) = 1010) := by
  unfold isValidClosePayload
  by_cases empty : payload = []
  · subst empty
    decide
  · have filled : payload.length ≠ 0 := fun none => empty (List.length_eq_zero_iff.mp none)
    have parts : (2 ≤ payload.length ∧ rfcCloseCode client (bigEndian (payload.take 2)) = true) ∧
        validUTF8 (payload.drop 2) = true := by
      simpa [rfcClosePayload, empty] using allowed
    obtain ⟨⟨long, code⟩, text⟩ := parts
    have known := isValidCloseStatusCode_of_rfc code
    rw [if_neg filled, if_neg (by omega), text]
    cases valid : isValidCloseStatusCode (bigEndian (payload.take 2)) with
    | false => simp_all
    | true => simp_all

/-- The checks of an allowed frame fail for the one status code that is missing. -/
theorem checkControl_of_rfcAllowed {client : Bool} {frame : Frame}
    (allowed : RfcAllowed client frame) (input : Input) :
    checkControl frame input = (.ok (), input) ↔ ¬ MandatoryExtension frame := by
  have opcode := allowed.opcode
  simp only [List.mem_cons, List.not_mem_nil, or_false] at opcode
  have pass : (pure () : Read Unit) input = (.ok (), input) := rfl
  unfold checkControl MandatoryExtension
  by_cases control : 0x8 ≤ frame.op
  · have kind : frame.op ∈ [opcodeClose, opcodePing, opcodePong] := by
      rcases opcode with same | same | same | same | same | same <;> rw [same] at control ⊢ <;>
        revert control <;> decide
    obtain ⟨fin, short⟩ := allowed.control kind
    have within : ¬ maxControlPayload < frame.payload.length := Nat.not_lt.mpr short
    rw [if_pos control, fin, if_neg (by decide), if_neg within]
    by_cases close : frame.op = opcodeClose
    · have known := isValidClosePayload_of_rfc (allowed.close close)
      cases valid : isValidClosePayload frame.payload with
      | false => simp_all [Reader.fail]
      | true => simp_all
    · rw [if_neg (fun invalid => close invalid.1)]
      exact iff_of_true pass fun extension => close extension.1
  · rw [if_neg control]
    exact iff_of_true pass fun extension => control (extension.1 ▸ by decide)

/-- The two directions of the codec. What one side emits for an allowed frame reads back on the
other side exactly if it is not a close frame with the status code 1010; and every frame that is
read was emitted so, with one mask key only. -/
theorem readFrame_codec {writer reader : Conn} (opposite : reader.client = !writer.client) :
    (∀ key frame, RfcAllowed writer.client frame →
      (frame.payload.length : Int) ≤ reader.readLimit →
      ((∀ rest broken, readFrame reader ⟨writeFrame writer key frame ++ rest, broken⟩ =
        (.ok frame, ⟨rest, broken⟩)) ↔ ¬ MandatoryExtension frame)) ∧
    (∀ input frame rest, readFrame reader input = (.ok frame, rest) →
      ∃ key, input.bytes = writeFrame writer key frame ++ rest.bytes ∧
        rest.broken = input.broken ∧
        (writer.client = true → ∀ other,
          input.bytes = writeFrame writer other frame ++ rest.bytes → other = key)) := by
  constructor
  · intro key frame allowed fits
    have reads := fun rest broken =>
      readFrame_writeFrame opposite key (valid_of_rfcAllowed allowed) fits rest broken
    constructor
    · intro roundTrip
      rw [← checkControl_of_rfcAllowed allowed ⟨[], none⟩]
      obtain ⟨_, middle, checked, done⟩ :=
        Reader.bind_eq_ok.mp ((reads [] none).symm.trans (roundTrip [] none))
      obtain ⟨_, rfl⟩ := Reader.pure_eq_ok.mp done
      exact checked
    · intro known rest broken
      rw [reads, Reader.bind_of_ok ((checkControl_of_rfcAllowed allowed _).mpr known)]
      rfl
  · intro input frame rest ok
    obtain ⟨_, _, key, bytes, broken⟩ := writeFrame_of_readFrame opposite ok
    refine ⟨key, bytes, broken, fun client other otherBytes => ?_⟩
    exact maskKey_of_writeFrame client (List.append_cancel_right (otherBytes.symm.trans bytes))

/-- A client and a server with a limit of a hundred bytes. -/
def clientConn : Conn where
  client := true
  readLimit := 100
  readLimitFits := ⟨by decide, by decide⟩

def serverConn : Conn where
  client := false
  readLimit := 100
  readLimitFits := ⟨by decide, by decide⟩

/-- A text frame of a client reads back on the server, and was emitted by the client. -/
theorem readFrame_codec_text :
    (∀ rest broken, readFrame serverConn
      ⟨writeFrame clientConn ⟨1, 2, 3, 4⟩ ⟨opcodeText, true, ascii "hello"⟩ ++ rest, broken⟩ =
        (.ok ⟨opcodeText, true, ascii "hello"⟩, ⟨rest, broken⟩)) ∧
    ∃ key, writeFrame clientConn ⟨1, 2, 3, 4⟩ ⟨opcodeText, true, ascii "hello"⟩ =
      writeFrame clientConn key ⟨opcodeText, true, ascii "hello"⟩ ++ [] := by
  have reads := ((@readFrame_codec clientConn serverConn rfl).1 ⟨1, 2, 3, 4⟩
    ⟨opcodeText, true, ascii "hello"⟩ ⟨by decide, by decide, by decide⟩ (by decide)).mpr
    fun extension => absurd extension.1 (by decide)
  obtain ⟨key, bytes, _⟩ := (@readFrame_codec clientConn serverConn rfl).2
    ⟨writeFrame clientConn ⟨1, 2, 3, 4⟩ ⟨opcodeText, true, ascii "hello"⟩, none⟩ _ ⟨[], none⟩
    (by simpa using reads [] none)
  exact ⟨reads, key, bytes⟩

/-- A close frame of a client with the status code 1010, which RFC 6455 defines for clients, is
refused by the server. -/
theorem refused_mandatoryExtension :
    RfcAllowed true ⟨opcodeClose, true, putBigEndian 2 1010⟩ ∧
      readFrame serverConn
        ⟨writeFrame clientConn ⟨1, 2, 3, 4⟩ ⟨opcodeClose, true, putBigEndian 2 1010⟩, none⟩ =
        (.error errProtocolError, ⟨[], none⟩) :=
  ⟨⟨by decide, by decide, by decide +kernel⟩, by decide +kernel⟩

end Plumego.Websocket
