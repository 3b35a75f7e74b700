/-
Module: Plumego.Go.Binary
Purpose: Byte-level encodings: `encoding/binary` in big-endian order, `io.ReadFull` over the rest of
  an input, the IEEE CRC-32, the number formats of `fmt`, and `encoding/hex`.
Trusted boundary: the definitions follow the documented behaviour of the Go standard library.
Main exports: putBigEndian, bigEndian, readFull, checksumIEEE, formatHex,
  hexDecodeString_hexEncodeToString
-/
import Mathlib.Data.Nat.Basic
import Mathlib.Tactic.Ring
import Plumego.Go.Strings

namespace Plumego.Go

/-! ## Big-endian integers -/

/-- The lowest `width` bytes of a number, most significant first:
`binary.BigEndian.PutUint32` and `PutUint64`. -/
def putBigEndian : Nat → Nat → Bytes
  | 0, _ => []
  | width + 1, value =>
    UInt8.ofNat (value / 256 ^ width) :: putBigEndian width value

/-- The number a byte sequence spells: `binary.BigEndian.Uint32` and
`Uint64`. -/
def bigEndian (bytes : Bytes) : Nat :=
  bytes.foldl (fun value byte => value * 256 + byte.toNat) 0

@[simp] theorem length_putBigEndian (width value : Nat) :
    (putBigEndian width value).length = width := by
  induction width with
  | zero => rfl
  | succ width ih => simp [putBigEndian, ih]

theorem foldl_bigEndian (bytes : Bytes) (start : Nat) :
    bytes.foldl (fun value byte => value * 256 + byte.toNat) start =
      start * 256 ^ bytes.length + bigEndian bytes := by
  induction bytes generalizing start with
  | nil => simp [bigEndian]
  | cons byte rest ih =>
    rw [bigEndian, List.foldl_cons, List.foldl_cons, ih,
      ih, List.length_cons, pow_succ]
    ring

/-- Reading back what was written gives the number modulo its width. -/
theorem bigEndian_putBigEndian (width value : Nat) :
    bigEndian (putBigEndian width value) = value % 256 ^ width := by
  induction width with
  | zero => simp [putBigEndian, bigEndian, Nat.mod_one]
  | succ width ih =>
    have split := foldl_bigEndian (putBigEndian width value)
      (UInt8.ofNat (value / 256 ^ width)).toNat
    have head : bigEndian (putBigEndian (width + 1) value) =
        (value / 256 ^ width) % 256 * 256 ^ width + value % 256 ^ width := by
      rw [putBigEndian, bigEndian, List.foldl_cons, Nat.zero_mul, Nat.zero_add, split,
        length_putBigEndian, ih]
      simp
    rw [head, pow_succ, Nat.mod_mul, Nat.add_comm, Nat.mul_comm (256 ^ width)]

theorem bigEndian_putBigEndian_of_lt {width value : Nat}
    (bound : value < 256 ^ width) :
    bigEndian (putBigEndian width value) = value := by
  rw [bigEndian_putBigEndian, Nat.mod_eq_of_lt bound]

theorem bigEndian_cons (byte : UInt8) (rest : Bytes) :
    bigEndian (byte :: rest) = byte.toNat * 256 ^ rest.length + bigEndian rest := by
  rw [bigEndian, List.foldl_cons, foldl_bigEndian, Nat.zero_mul, Nat.zero_add]

theorem bigEndian_lt (bytes : Bytes) : bigEndian bytes < 256 ^ bytes.length := by
  induction bytes with
  | nil => exact Nat.one_pos
  | cons byte rest ih =>
    have small : byte.toNat + 1 ≤ 256 := byte.toNat_lt
    have scaled := Nat.mul_le_mul_right (256 ^ rest.length) small
    rw [bigEndian_cons, List.length_cons, pow_succ, Nat.mul_comm (256 ^ rest.length)]
    rw [Nat.add_mul, Nat.one_mul] at scaled
    omega

/-- Only the lowest bytes of a number are written. -/
theorem putBigEndian_add (width value high : Nat) :
    putBigEndian width (high * 256 ^ width + value) = putBigEndian width value := by
  induction width generalizing high with
  | zero => rfl
  | succ width ih =>
    have split : high * 256 ^ (width + 1) + value =
        (high * 256) * 256 ^ width + value := by ring
    have quotient : (high * 256 * 256 ^ width + value) / 256 ^ width =
        high * 256 + value / 256 ^ width := by
      rw [Nat.add_comm, Nat.add_mul_div_right _ _ (Nat.pow_pos (by decide)), Nat.add_comm]
    have sameByte : UInt8.ofNat (high * 256 + value / 256 ^ width) =
        UInt8.ofNat (value / 256 ^ width) := by
      apply UInt8.toNat_inj.mp
      simp
    rw [putBigEndian, putBigEndian, split, ih, quotient, sameByte]

/-- Writing back what was read gives the same bytes. -/
theorem putBigEndian_bigEndian (bytes : Bytes) :
    putBigEndian bytes.length (bigEndian bytes) = bytes := by
  induction bytes with
  | nil => rfl
  | cons byte rest ih =>
    have highest : (byte.toNat * 256 ^ rest.length + bigEndian rest) / 256 ^ rest.length =
        byte.toNat := by
      rw [Nat.add_comm, Nat.add_mul_div_right _ _ (Nat.pow_pos (by decide)),
        Nat.div_eq_of_lt (bigEndian_lt rest), Nat.zero_add]
    rw [List.length_cons, putBigEndian, bigEndian_cons, highest, putBigEndian_add,
      ih]
    simp

/-! ## Reading an input -/

/-- How a read fails: `io.EOF` where nothing was left, `io.ErrUnexpectedEOF`
where the input ended inside, or an error of the format. -/
inductive ReadError where
  | eof
  | unexpectedEOF
  | invalid (failure : GoError)
deriving DecidableEq, Repr

/-- The failure of a read as an error value. -/
def ReadError.toError : ReadError → GoError
  | .eof => .new "EOF"
  | .unexpectedEOF => .new "unexpected EOF"
  | .invalid failure => failure

/-- The failure is the end of the input. -/
def ReadError.ends (failure : ReadError) : Bool := failure == .eof

/-- `io.ReadFull` of `count` bytes: the bytes and the rest of the input. A read
of no bytes succeeds at the end of the input. -/
def readFull (count : Nat) (input : Bytes) : Except ReadError (Bytes × Bytes) :=
  if count ≤ input.length then .ok (input.take count, input.drop count)
  else if input = [] then .error .eof
  else .error .unexpectedEOF

/-- A read of exactly the bytes in front takes them off. -/
theorem readFull_append {count : Nat} {front : Bytes} (rest : Bytes)
    (length : front.length = count) :
    readFull count (front ++ rest) = .ok (front, rest) := by
  unfold readFull
  rw [if_pos (by rw [List.length_append]; omega), ← length, List.take_left,
    List.drop_left]

/-! ## Checksums and number formats -/

/-- One bit of the reflected CRC-32 division. -/
def crcBit (crc : Nat) : Nat :=
  if crc % 2 = 1 then (crc / 2) ^^^ 0xEDB88320 else crc / 2

/-- One byte of the reflected CRC-32 division. -/
def crcByte (crc : Nat) (byte : UInt8) : Nat :=
  crcBit (crcBit (crcBit (crcBit (crcBit (crcBit (crcBit (crcBit
    (crc ^^^ byte.toNat))))))))

/-- `crc32.ChecksumIEEE`. -/
def checksumIEEE (bytes : Bytes) : UInt32 :=
  UInt32.ofNat ((bytes.foldl crcByte 0xFFFFFFFF) ^^^ 0xFFFFFFFF)

/-- The check value of the IEEE CRC-32. -/
example : checksumIEEE (ascii "123456789") = 0xCBF43926 := by decide +kernel

/-- The `%d` format. -/
def formatDecimal (value : Int) : Bytes :=
  let digits := (Nat.toDigits 10 value.natAbs).map fun digit => digit.toNat.toUInt8
  if value < 0 then 45 :: digits else digits

/-- One lower-case hexadecimal digit. -/
def hexDigit (value : Nat) : UInt8 :=
  if value < 10 then UInt8.ofNat (48 + value) else UInt8.ofNat (87 + value)

/-- The `%x` format of a byte slice. -/
def formatHex (bytes : Bytes) : Bytes :=
  bytes.flatMap fun byte => [hexDigit (byte.toNat / 16), hexDigit (byte.toNat % 16)]

/-! ## Hexadecimal text -/

/-- The value of a hexadecimal digit. -/
def fromHexChar (byte : UInt8) : Option UInt8 :=
  if 0x30 ≤ byte && byte ≤ 0x39 then some (byte - 0x30)
  else if 0x61 ≤ byte && byte ≤ 0x66 then some (byte - 0x61 + 10)
  else if 0x41 ≤ byte && byte ≤ 0x46 then some (byte - 0x41 + 10)
  else none

/-- `hex.InvalidByteError`. -/
def invalidByteError (byte : UInt8) : GoError :=
  .errorf "encoding/hex: invalid byte: %#U" [.int byte.toNat]

/-- `hex.DecodeString`. -/
def hexDecodeString : Bytes → Except GoError Bytes
  | [] => .ok []
  | [last] =>
    match fromHexChar last with
    | none => .error (invalidByteError last)
    | some _ => .error (.new "encoding/hex: odd length hex string")
  | high :: low :: rest =>
    match fromHexChar high, fromHexChar low with
    | none, _ => .error (invalidByteError high)
    | some _, none => .error (invalidByteError low)
    | some upper, some lower =>
      match hexDecodeString rest with
      | .error failure => .error failure
      | .ok bytes => .ok ((upper <<< 4 ||| lower) :: bytes)

/-- The digit of a value below 16. -/
def hexChar (value : UInt8) : UInt8 := if value < 10 then 0x30 + value else 0x61 + (value - 10)

/-- `hex.EncodeToString`. -/
def hexEncodeToString (bytes : Bytes) : Bytes :=
  bytes.flatMap fun byte : UInt8 => [hexChar (byte >>> 4), hexChar (byte &&& 0x0f)]

theorem length_hexEncodeToString (bytes : Bytes) :
    (hexEncodeToString bytes).length = 2 * bytes.length := by
  induction bytes with
  | nil => rfl
  | cons byte bytes ih =>
    rw [hexEncodeToString, List.flatMap_cons, List.length_append, ← hexEncodeToString,
      ih, List.length_cons]
    simp
    omega

/-- The two digits of a byte, read back. -/
theorem fromHexChar_hexChar (byte : UInt8) :
    ∃ upper lower, fromHexChar (hexChar (byte >>> 4)) = some upper ∧
      fromHexChar (hexChar (byte &&& 0x0f)) = some lower ∧ upper <<< 4 ||| lower = byte := by
  have all : ∀ value : Fin 256,
      fromHexChar (hexChar (UInt8.ofNat value >>> 4)) = some (UInt8.ofNat value >>> 4) ∧
      fromHexChar (hexChar (UInt8.ofNat value &&& 0x0f)) = some (UInt8.ofNat value &&& 0x0f) ∧
      (UInt8.ofNat value >>> 4) <<< 4 ||| (UInt8.ofNat value &&& 0x0f) = UInt8.ofNat value := by
    decide +kernel
  have here := all ⟨byte.toNat, byte.toNat_lt⟩
  rw [UInt8.ofNat_toNat] at here
  exact ⟨_, _, here⟩

/-- Decoding gives back what was encoded. -/
theorem hexDecodeString_hexEncodeToString (bytes : Bytes) :
    hexDecodeString (hexEncodeToString bytes) = .ok bytes := by
  induction bytes with
  | nil => rfl
  | cons byte bytes ih =>
    obtain ⟨upper, lower, high, low, joined⟩ := fromHexChar_hexChar byte
    rw [hexEncodeToString, List.flatMap_cons, List.cons_append, List.cons_append,
      List.nil_append, hexDecodeString, high, low, ← hexEncodeToString, ih]
    show Except.ok ((upper <<< 4 ||| lower) :: bytes) = Except.ok (byte :: bytes)
    rw [joined]

/-- Different bytes have different texts. -/
theorem hexEncodeToString_injective {first second : Bytes}
    (same : hexEncodeToString first = hexEncodeToString second) : first = second := by
  have decoded := hexDecodeString_hexEncodeToString first
  rw [same, hexDecodeString_hexEncodeToString] at decoded
  exact (Except.ok.inj decoded).symm

end Plumego.Go
