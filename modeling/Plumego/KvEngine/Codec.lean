/-
Module: Plumego.KvEngine.Codec
Purpose: Entries of the key-value engine, their write-ahead-log records and the
  two serialisers: the binary format byte by byte, the JSON format through
  `encoding/json`.
Trusted boundary: `encoding/json` is the parameter `JsonCodec`.
Main exports: Entry, WALEntry, decodeWALBinary, decodeEntryBinary, JsonCodec
-/
import Plumego.Go.Binary
import Plumego.Go.Time
import Plumego.Go.Utf8

namespace Plumego.KvEngine

open Go

/-- `Entry`: a key-value pair with its metadata. The chain pointers of the
source's record are unused there and left out. -/
structure Entry where
  key : Bytes
  value : Bytes
  expireAt : Time := zeroTime
  size : Int
  version : Int
deriving DecidableEq, Repr

/-- `opSet`. -/
def opSet : UInt8 := 1

/-- `opDelete`. -/
def opDelete : UInt8 := 2

/-- `WALEntry`: a write-ahead-log record. -/
structure WALEntry where
  op : UInt8
  key : Bytes
  value : Bytes := []
  expireAt : Time := zeroTime
  version : Int
  crc : UInt32 := 0
deriving DecidableEq, Repr

/-- `calculateCRC`: the checksum of the record's printed fields. -/
def calculateCRC (entry : WALEntry) : UInt32 :=
  checksumIEEE (formatDecimal entry.op.toNat ++ [0] ++ entry.key ++ [0] ++
    formatHex entry.value ++ [0] ++ formatDecimal (unixNano entry.expireAt) ++ [0] ++
    formatDecimal entry.version)

/-- `validateWALEntry`. -/
def validateWALEntry (entry : WALEntry) : Bool :=
  entry.crc == calculateCRC entry

/-! ## The binary format -/

/-- `walEntryMagic`, the text `WALE`. -/
def walEntryMagic : Nat := 0x57414C45

/-- `magicNumber`, the text `KVST`. -/
def magicNumber : Nat := 0x4B565354

/-- `version` of the snapshot format. -/
def snapshotVersion : Nat := 1

/-- `maxKeySize`. -/
def maxKeySize : Nat := 64 * 1024

/-- `maxValueSize`. -/
def maxValueSize : Nat := 512 * 1024 * 1024

/-- The size checks of both encoders. -/
def sizeError (key value : Bytes) : Option GoError :=
  if maxKeySize < key.length then
    some (.errorf "key size %d exceeds maximum %d" [.int key.length, .int maxKeySize])
  else if maxValueSize < value.length then
    some (.errorf "value size %d exceeds maximum %d"
      [.int value.length, .int maxValueSize])
  else none

/-- The expiry as written: zero for the zero time. -/
def expireNano (expireAt : Time) : Int :=
  if isZero expireAt then 0 else unixNano expireAt

/-- The expiry as read: only positive values are instants. -/
def expireTime (nano : Int) : Time :=
  if 0 < nano then nano else zeroTime

/-- A byte string behind its four-byte length. -/
def putBlock (text : Bytes) : Bytes := putBigEndian 4 text.length ++ text

/-- `BinarySerializer.EncodeWALEntry`. -/
def encodeWALBinary (entry : WALEntry) : Except GoError Bytes :=
  match sizeError entry.key entry.value with
  | some failure => .error failure
  | none =>
    .ok (putBigEndian 4 walEntryMagic ++ ([entry.op] ++ (putBlock entry.key ++
      (putBlock entry.value ++ (putBigEndian 8 (toUint64 (expireNano entry.expireAt)) ++
      (putBigEndian 8 (toUint64 entry.version) ++
        putBigEndian 4 entry.crc.toNat))))))

/-- Read a big-endian number of `width` bytes. -/
def readUint (width : Nat) (input : Bytes) : Except ReadError (Nat × Bytes) :=
  match readFull width input with
  | .error failure => .error failure
  | .ok (bytes, rest) => .ok (bigEndian bytes, rest)

/-- Read a length of four bytes, check it and read that many bytes. -/
def readBlock (format : String) (limit : Nat) (input : Bytes) :
    Except ReadError (Bytes × Bytes) :=
  match readUint 4 input with
  | .error failure => .error failure
  | .ok (length, rest) =>
    if limit < length then
      .error (.invalid (.errorf format [.int length, .int limit]))
    else readFull length rest

/-- `BinarySerializer.DecodeWALEntry`: one record off the front of the input. -/
def decodeWALBinary (input : Bytes) : Except ReadError (WALEntry × Bytes) := do
  let (magic, rest) ← readUint 4 input
  if magic ≠ walEntryMagic then
    throw (.invalid (.errorf "invalid WAL entry magic: 0x%X" [.int magic]))
  let (op, rest) ← readUint 1 rest
  let (key, rest) ← readBlock "key length %d exceeds maximum %d" maxKeySize rest
  let (value, rest) ← readBlock "value length %d exceeds maximum %d" maxValueSize rest
  let (nano, rest) ← readUint 8 rest
  let (version, rest) ← readUint 8 rest
  let (crc, rest) ← readUint 4 rest
  return ({ op := UInt8.ofNat op, key := key, value := value,
            expireAt := expireTime (toInt64 nano), version := toInt64 version,
            crc := UInt32.ofNat crc }, rest)

/-- `BinarySerializer.WriteSnapshotHeader` at the given instant. -/
def snapshotHeaderBinary (now : Time) : Bytes :=
  putBigEndian 4 magicNumber ++ (putBigEndian 4 snapshotVersion ++
    putBigEndian 8 (toUint64 (unixNano now)))

/-- `BinarySerializer.ReadSnapshotHeader`: the rest of the input. -/
def readSnapshotHeaderBinary (input : Bytes) : Except ReadError Bytes := do
  let (magic, rest) ← readUint 4 input
  if magic ≠ magicNumber then
    throw (.invalid (.errorf "invalid snapshot magic: 0x%X" [.int magic]))
  let (version, rest) ← readUint 4 rest
  if version ≠ snapshotVersion then
    throw (.invalid (.errorf "unsupported snapshot version: %d" [.int version]))
  let (_, rest) ← readUint 8 rest
  return rest

/-- `BinarySerializer.EncodeEntry`. -/
def encodeEntryBinary (entry : Entry) : Except GoError Bytes :=
  match sizeError entry.key entry.value with
  | some failure => .error failure
  | none =>
    .ok (putBlock entry.key ++ (putBlock entry.value ++
      (putBigEndian 8 (toUint64 (expireNano entry.expireAt)) ++
      (putBigEndian 8 (toUint64 entry.version) ++
        putBigEndian 8 (toUint64 entry.size)))))

/-- `BinarySerializer.DecodeEntry`. -/
def decodeEntryBinary (input : Bytes) : Except ReadError (Entry × Bytes) := do
  let (key, rest) ← readBlock "key length %d exceeds maximum %d" maxKeySize input
  let (value, rest) ← readBlock "value length %d exceeds maximum %d" maxValueSize rest
  let (nano, rest) ← readUint 8 rest
  let (version, rest) ← readUint 8 rest
  let (size, rest) ← readUint 8 rest
  return ({ key := key, value := value, expireAt := expireTime (toInt64 nano),
            version := toInt64 version, size := toInt64 size }, rest)

/-! ## The JSON format -/

/-- The functions of `encoding/json` at the engine's types, with `header` the
encoded snapshot header of an instant. An error of the package is `none`. -/
structure JsonCodec where
  marshalWAL : WALEntry → Option Bytes
  unmarshalWAL : Bytes → Option WALEntry
  marshalEntry : Entry → Option Bytes
  unmarshalEntry : Bytes → Option Entry
  header : Time → Bytes
  unmarshalHeader : Bytes → Bool

/-- The byte `'\n'`. -/
abbrev newline : UInt8 := 10

/-- The loop of `readJSONLine` over at most `fuel` lines: the next line that is
not blank, trimmed, and the rest of the input. -/
def readJSONLineLoop : Nat → Bytes → Except ReadError (Bytes × Bytes)
  | 0, _ => .error .eof
  | fuel + 1, input =>
    let line := input.takeWhile (· != newline)
    match input.dropWhile (· != newline) with
    | [] =>
      -- no newline left: `ReadBytes` returned the remainder with `io.EOF`
      if trimSpace line = [] then .error .eof else .ok (trimSpace line, [])
    | _ :: rest =>
      if trimSpace (line ++ [newline]) = [] then readJSONLineLoop fuel rest
      else .ok (trimSpace (line ++ [newline]), rest)

/-- `readJSONLine`. -/
def readJSONLine (input : Bytes) : Except ReadError (Bytes × Bytes) :=
  readJSONLineLoop (input.length + 1) input

/-- Read one line and unmarshal it. -/
def decodeJSONLine {α : Type} (unmarshal : Bytes → Option α) (input : Bytes) :
    Except ReadError (α × Bytes) :=
  match readJSONLine input with
  | .error failure => .error failure
  | .ok (line, rest) =>
    match unmarshal line with
    | none => .error (.invalid (.new "json"))
    | some item => .ok (item, rest)

/-- Marshal and add the newline. -/
def encodeJSONLine (marshalled : Option Bytes) : Except GoError Bytes :=
  match marshalled with
  | none => .error (.new "json")
  | some line => .ok (line ++ [newline])

/-! ## Serialisers -/

/-- `SerializationFormat`. -/
inductive SerializationFormat where
  | binary
  | json
deriving DecidableEq, Repr

section Serializers

variable (codec : JsonCodec)

/-- `Serializer.EncodeWALEntry`. -/
def encodeWALEntry (format : SerializationFormat) (entry : WALEntry) :
    Except GoError Bytes :=
  match format with
  | .binary => encodeWALBinary entry
  | .json => encodeJSONLine (codec.marshalWAL entry)

/-- `Serializer.DecodeWALEntry`. -/
def decodeWALEntry (format : SerializationFormat) (input : Bytes) :
    Except ReadError (WALEntry × Bytes) :=
  match format with
  | .binary => decodeWALBinary input
  | .json => decodeJSONLine codec.unmarshalWAL input

/-- `Serializer.WriteSnapshotHeader`. -/
def snapshotHeader (format : SerializationFormat) (now : Time) : Bytes :=
  match format with
  | .binary => snapshotHeaderBinary now
  | .json => codec.header now ++ [newline]

/-- `Serializer.ReadSnapshotHeader`. -/
def readSnapshotHeader (format : SerializationFormat) (input : Bytes) :
    Except ReadError Bytes :=
  match format with
  | .binary => readSnapshotHeaderBinary input
  | .json =>
    match readJSONLine input with
    | .error failure => .error failure
    | .ok (line, rest) =>
      if codec.unmarshalHeader line then .ok rest
      else .error (.invalid (.new "json"))

/-- `Serializer.EncodeEntry`. -/
def encodeEntry (format : SerializationFormat) (entry : Entry) :
    Except GoError Bytes :=
  match format with
  | .binary => encodeEntryBinary entry
  | .json => encodeJSONLine (codec.marshalEntry entry)

/-- `Serializer.DecodeEntry`. -/
def decodeEntry (format : SerializationFormat) (input : Bytes) :
    Except ReadError (Entry × Bytes) :=
  match format with
  | .binary => decodeEntryBinary input
  | .json => decodeJSONLine codec.unmarshalEntry input

end Serializers

/-- The magic check shared by `detectSnapshotMagic` and `detectWALMagic`. -/
def detectMagic (kind : String) (magic : Nat) (input : Bytes) :
    Except GoError SerializationFormat :=
  if input.length < 4 then
    .error (.errorf ("unknown " ++ kind ++ " format: short header") [])
  else if bigEndian (input.take 4) = magic then .ok .binary
  else if input.head? = some 123 then .ok .json
  else .error (.errorf ("unknown " ++ kind ++ " format: magic 0x%X")
    [.int (bigEndian (input.take 4))])

/-- `detectSnapshotFormat`. -/
def detectSnapshotFormat (input : Bytes) : Except GoError SerializationFormat :=
  detectMagic "snapshot" magicNumber input

/-- `DetectWALFormat`. -/
def detectWALFormat (input : Bytes) : Except GoError SerializationFormat :=
  detectMagic "WAL" walEntryMagic input

end Plumego.KvEngine
