/-
Module: Plumego.Proofs.KvWalReplay
Purpose: The binary log of the key-value engine: what a record keeps of the call that
  wrote it, where a record can be cut without its reader noticing, and which logs the
  replay accepts.
Trusted boundary: none
Main exports: ReadsBack, readsBack_iff, decodeWALBinary_ok_iff, FailsClosed, failsClosed_iff
-/
import Mathlib.Tactic.IntervalCases
import Plumego.Proofs.KvCodec
import Plumego.Proofs.KvContents

namespace Plumego.KvEngine

open Go Lib

/-! ## The record of a set -/

/-- The log record of a call with a time to live, with its checksum. -/
def setRecord (op : UInt8) (key value : Bytes) (ttl : Int) (now : Time) (version : Int) :
    WALEntry :=
  Store.checked
    { op := op, key := key, value := value, expireAt := Store.setExpiry ttl now,
      version := version }

/-- In the binary format the record decodes, in front of anything, to the same operation,
key, value, version and expiry, and passes its check. -/
def ReadsBack (record : WALEntry) : Prop :=
  ∃ data, encodeWALBinary record = .ok data ∧ ∀ rest, ∃ decoded,
    decodeWALBinary (data ++ rest) = .ok (decoded, rest) ∧ decoded.op = record.op ∧
      decoded.key = record.key ∧ decoded.value = record.value ∧
      decoded.version = record.version ∧ decoded.expireAt = record.expireAt ∧
      validateWALEntry decoded = true

theorem sizeError_of_sizes {key value : Bytes} (keySize : key.length ≤ maxKeySize)
    (valueSize : value.length ≤ maxValueSize) : sizeError key value = none := by
  rw [sizeError, if_neg (by omega), if_neg (by omega)]

/-- An instant past the year 2262 wraps to a negative number and is read as no expiry. -/
theorem expireTime_of_wrapped {expireAt : Int} (late : 2 ^ 63 ≤ expireAt)
    (bound : expireAt < 2 ^ 64) :
    expireTime (toInt64 (toUint64 (expireNano expireAt))) = zeroTime := by
  have notZero : isZero expireAt = false := by
    rw [isZero, beq_eq_false_iff_ne]
    rintro rfl
    exact absurd late (by decide)
  have wrapped : wrapInt64 expireAt = expireAt - 2 ^ 64 := by
    unfold wrapInt64
    rw [Int.bmod_def]
    omega
  have negative : ¬ 0 < wrapInt64 expireAt := by omega
  rw [expireNano, notZero, unixNano]
  simp only [Bool.false_eq_true, if_false]
  rw [toInt64_toUint64 (inInt64_wrapInt64 expireAt), expireTime, if_neg negative]

section SetRecord

variable {op : UInt8} {key value : Bytes} {ttl now version : Int}

theorem encodeWALBinary_setRecord (op : UInt8) (ttl now version : Int)
    (keySize : key.length ≤ maxKeySize) (valueSize : value.length ≤ maxValueSize) :
    ∃ data, encodeWALBinary (setRecord op key value ttl now version) = .ok data := by
  have accepted : sizeError (setRecord op key value ttl now version).key
      (setRecord op key value ttl now version).value = none :=
    sizeError_of_sizes keySize valueSize
  rw [encodeWALBinary, accepted]
  exact ⟨_, rfl⟩

theorem setExpiry_fits (positive : 0 ≤ now) (early : ttl ≤ 0 ∨ now + ttl < 2 ^ 63) :
    ExpiryFits (Store.setExpiry ttl now) := by
  unfold Store.setExpiry
  split
  · right
    constructor
    · omega
    · omega
  · exact Or.inl rfl

/-- A record whose expiry is past the year 2262 comes back without an expiry. -/
theorem not_readsBack_of_late (clock : 0 ≤ now ∧ now < 2 ^ 63) (ttlRange : InInt64 ttl)
    (versionRange : InInt64 version) (late : 2 ^ 63 ≤ now + ttl) (positive : 0 < ttl) :
    ¬ ReadsBack (setRecord op key value ttl now version) := by
  rintro ⟨data, encoded, returns⟩
  obtain ⟨decoded, decodes, -, -, -, -, sameExpiry, -⟩ := returns []
  have expiryEq : (setRecord op key value ttl now version).expireAt = now + ttl := if_pos positive
  have wrapped := expireTime_of_wrapped late (by have := ttlRange.2; omega)
  have written := decodeWALBinary_written [] encoded versionRange
  rw [expiryEq, wrapped] at written
  have decodedEq := congrArg Prod.fst (Except.ok.inj (decodes.symm.trans written))
  rw [expiryEq, congrArg WALEntry.expireAt decodedEq] at sameExpiry
  have negative : (zeroTime : Int) < now + ttl := by
    have belowZero : (zeroTime : Int) < 0 := by decide
    have aboveZero : 0 ≤ now + ttl := by omega
    exact lt_of_lt_of_le belowZero aboveZero
  exact absurd sameExpiry (ne_of_lt negative)

/-- The record of a set reads back exactly when the call has no expiry or one that
`UnixNano` can hold. -/
theorem readsBack_iff (keySize : key.length ≤ maxKeySize)
    (valueSize : value.length ≤ maxValueSize) (clock : 0 ≤ now ∧ now < 2 ^ 63)
    (ttlRange : InInt64 ttl) (versionRange : InInt64 version) :
    ReadsBack (setRecord op key value ttl now version) ↔ ttl ≤ 0 ∨ now + ttl < 2 ^ 63 := by
  constructor
  · intro returns
    by_contra outside
    rw [not_or, not_le, not_lt] at outside
    exact not_readsBack_of_late clock ttlRange versionRange outside.2 outside.1 returns
  · intro early
    obtain ⟨data, encoded⟩ := encodeWALBinary_setRecord op ttl now version keySize
      valueSize
    refine ⟨data, encoded, fun rest => ⟨_, decodeWALBinary_encoded rest encoded
      (setExpiry_fits clock.1 early) versionRange, rfl, rfl, rfl, rfl, rfl, ?_⟩⟩
    exact validateWALEntry_checked _

end SetRecord

/-- An hour's expiry. -/
theorem readsBack_iff_hour :
    ReadsBack (setRecord opSet (ascii "k") [1] 3600000000000 1700000000000000000 1) :=
  (readsBack_iff (by decide) (by decide) (by decide) (by unfold InInt64; decide)
    (by unfold InInt64; decide)).mpr (by decide)

/-- The log after one `Set` with the longest time to live. -/
def farExpiry : Store :=
  Store.after uncalled {}
    [.reopen {}, .set (ascii "k") [1] (2 ^ 63 - 1) 1700000000000000000 none]

/-- A `Set` with the longest time to live returns no error, its record does not read back,
and the directory cannot be opened again. -/
theorem not_readsBack_farExpiry :
    ((Store.after uncalled {} [.reopen {}]).set uncalled (ascii "k") [1] (2 ^ 63 - 1)
        1700000000000000000 none).2 = none ∧
      ¬ ReadsBack (setRecord opSet (ascii "k") [1] (2 ^ 63 - 1) 1700000000000000000 1) ∧
      (errorOf (newKVStore uncalled {} farExpiry.disk)).isSome = true := by
  refine ⟨by decide +kernel, ?_, by decide +kernel⟩
  exact not_readsBack_of_late (by decide) (by unfold InInt64; decide)
    (by unfold InInt64; decide) (by decide) (by decide)

/-! ## The fields of a record -/

theorem readUint_ok_iff {width value : Nat} {input rest : Bytes} :
    readUint width input = .ok (value, rest) ↔
      ∃ bytes, bytes.length = width ∧ bigEndian bytes = value ∧ input = bytes ++ rest := by
  constructor
  · intro success
    rw [readUint, readFull] at success
    split at success
    · cases success
    · next bytes remaining taken =>
        obtain ⟨rfl, rfl⟩ := Prod.mk.inj (Except.ok.inj success)
        split_ifs at taken with enough empty
        · obtain ⟨rfl, rfl⟩ := Prod.mk.inj (Except.ok.inj taken)
          exact ⟨input.take width, List.length_take_of_le enough, rfl,
            (List.take_append_drop width input).symm⟩
  · rintro ⟨bytes, length, rfl, rfl⟩
    rw [readUint, readFull_append rest length]

/-- A read meets the end of the input where nothing is left and something is asked for. -/
theorem readFull_eof_iff {count : Nat} {input : Bytes} :
    readFull count input = .error .eof ↔ input = [] ∧ 0 < count := by
  rw [readFull]
  split_ifs with enough empty
  · simp only [false_iff, not_and]
    rintro rfl
    simpa using enough
  · subst empty
    simpa using Nat.pos_of_ne_zero (by simpa using enough)
  · simp [empty]

/-- A number at the end of the input. -/
theorem readUint_eof_iff {width : Nat} {input : Bytes} (positive : 0 < width) :
    readUint width input = .error .eof ↔ input = [] := by
  rw [readUint]
  cases taken : readFull width input with
  | ok result =>
    simp only [reduceCtorEq, false_iff]
    intro empty
    rw [readFull_eof_iff.mpr ⟨empty, positive⟩] at taken
    cases taken
  | error failure =>
    simp only [Except.error.injEq]
    constructor
    · rintro rfl
      exact (readFull_eof_iff.mp taken).1
    · intro empty
      rw [readFull_eof_iff.mpr ⟨empty, positive⟩] at taken
      exact (Except.error.inj taken).symm

theorem readBlock_ok_iff {format : String} {limit : Nat} {text input rest : Bytes}
    (small : limit < 2 ^ 32) :
    readBlock format limit input = .ok (text, rest) ↔
      text.length ≤ limit ∧ input = putBlock text ++ rest := by
  constructor
  · intro success
    rw [readBlock] at success
    split at success
    · cases success
    · next length remaining taken =>
        split_ifs at success with tooLong
        obtain ⟨lengthBytes, width, rfl, rfl⟩ := readUint_ok_iff.mp taken
        rw [readFull] at success
        split_ifs at success with enough empty
        obtain ⟨rfl, rfl⟩ := Prod.mk.inj (Except.ok.inj success)
        have textLength := List.length_take_of_le enough
        rw [textLength]
        refine ⟨by omega, ?_⟩
        have sameBytes := putBigEndian_bigEndian lengthBytes
        rw [width] at sameBytes
        rw [putBlock, textLength, sameBytes, List.append_assoc, List.take_append_drop]
  · rintro ⟨bound, rfl⟩
    exact readBlock_put format rest bound small

/-- A block cut off before its length or between its length and its bytes. -/
theorem readBlock_eof_iff {format : String} {limit : Nat} {input : Bytes}
    (small : limit < 2 ^ 32) :
    readBlock format limit input = .error .eof ↔
      input = [] ∨ ∃ text : Bytes, text ≠ [] ∧ text.length ≤ limit ∧
        input = putBigEndian 4 text.length := by
  constructor
  · intro failed
    rw [readBlock] at failed
    split at failed
    · next failure taken =>
        obtain rfl := Except.error.inj failed
        exact Or.inl ((readUint_eof_iff (by decide)).mp taken)
    · next length remaining taken =>
        split_ifs at failed with tooLong
        · cases Except.error.inj failed
        obtain ⟨lengthBytes, width, rfl, rfl⟩ := readUint_ok_iff.mp taken
        obtain ⟨rfl, positive⟩ := readFull_eof_iff.mp failed
        have sameBytes := putBigEndian_bigEndian lengthBytes
        right
        refine ⟨List.replicate (bigEndian lengthBytes) 0, ?_, ?_, ?_⟩
        · intro none
          rw [List.replicate_eq_nil_iff] at none
          omega
        · rw [List.length_replicate]
          omega
        · rw [width] at sameBytes
          rw [List.length_replicate, sameBytes, List.append_nil]
  · rintro (rfl | ⟨text, nonempty, bound, rfl⟩)
    · rfl
    · have written := readUint_put 4 text.length []
      have lengthEq : text.length % 256 ^ 4 = text.length := Nat.mod_eq_of_lt (by omega)
      have positive := List.length_pos_iff.mpr nonempty
      rw [List.append_nil, lengthEq] at written
      rw [readBlock, written]
      dsimp only
      rw [if_neg (by omega)]
      exact readFull_eof_iff.mpr ⟨rfl, positive⟩

/-- What a record of the binary log consists of, within the limits of the format. -/
structure RecordFields where
  op : UInt8
  key : Bytes
  value : Bytes
  expiry : Bytes
  version : Bytes
  crc : Bytes
  keyFits : key.length ≤ maxKeySize
  valueFits : value.length ≤ maxValueSize
  expiryWidth : expiry.length = 8
  versionWidth : version.length = 8
  crcWidth : crc.length = 4

namespace RecordFields

/-- The fields in the order in which `DecodeWALEntry` reads them, one per `io.ReadFull`. -/
def parts (fields : RecordFields) : List Bytes :=
  [putBigEndian 4 walEntryMagic, [fields.op], putBigEndian 4 fields.key.length, fields.key,
    putBigEndian 4 fields.value.length, fields.value, fields.expiry, fields.version, fields.crc]

/-- The whole record. -/
def bytes (fields : RecordFields) : Bytes := fields.parts.flatten

/-- The record cut off behind its first fields. -/
def cut (fields : RecordFields) (count : Nat) : Bytes := (fields.parts.take count).flatten

/-- The entry the record holds. -/
def entry (fields : RecordFields) : WALEntry where
  op := fields.op
  key := fields.key
  value := fields.value
  expireAt := expireTime (toInt64 (bigEndian fields.expiry))
  version := toInt64 (bigEndian fields.version)
  crc := UInt32.ofNat (bigEndian fields.crc)

/-- A record with these fields in front and zeros behind. -/
def padded (op : UInt8) (key value : Bytes) (keyFits : key.length ≤ maxKeySize)
    (valueFits : value.length ≤ maxValueSize) : RecordFields :=
  ⟨op, key, value, List.replicate 8 0, List.replicate 8 0, List.replicate 4 0, keyFits,
    valueFits, rfl, rfl, rfl⟩

end RecordFields

/-! ## How reading a record ends -/

/-- Where the result of a computation in two steps comes from. -/
theorem bind_eq_ok_iff {α β : Type} {first : Except ReadError α}
    {second : α → Except ReadError β} {result : β} :
    first.bind second = .ok result ↔ ∃ taken, first = .ok taken ∧ second taken = .ok result := by
  cases first with
  | error failure => simp [Except.bind]
  | ok taken => simp [Except.bind]

/-- Where the failure of a computation in two steps comes from. -/
theorem bind_eq_error_iff {α β : Type} {first : Except ReadError α}
    {second : α → Except ReadError β} {failure : ReadError} :
    first.bind second = .error failure ↔
      first = .error failure ∨ ∃ taken, first = .ok taken ∧ second taken = .error failure := by
  cases first with
  | error other => simp [Except.bind]
  | ok taken => simp [Except.bind]

/-- The reads of `DecodeWALEntry` behind the magic number. -/
def decodeFields (input : Bytes) : Except ReadError (WALEntry × Bytes) :=
  (readUint 1 input).bind fun op =>
    (readBlock "key length %d exceeds maximum %d" maxKeySize op.2).bind fun key =>
      (readBlock "value length %d exceeds maximum %d" maxValueSize key.2).bind fun value =>
        (readUint 8 value.2).bind fun nano =>
          (readUint 8 nano.2).bind fun version =>
            (readUint 4 version.2).bind fun crc =>
              .ok ({ op := UInt8.ofNat op.1, key := key.1, value := value.1,
                     expireAt := expireTime (toInt64 nano.1), version := toInt64 version.1,
                     crc := UInt32.ofNat crc.1 }, crc.2)

theorem decodeWALBinary_eq (input : Bytes) :
    decodeWALBinary input = (readUint 4 input).bind fun magic =>
      if magic.1 ≠ walEntryMagic then
        .error (.invalid (.errorf "invalid WAL entry magic: 0x%X" [.int magic.1]))
      else decodeFields magic.2 := by
  rfl

theorem readByte_ok_iff {value : Nat} {input rest : Bytes} :
    readUint 1 input = .ok (value, rest) ↔
      ∃ byte : UInt8, byte.toNat = value ∧ input = byte :: rest := by
  rw [readUint_ok_iff]
  constructor
  · rintro ⟨bytes, single, rfl, rfl⟩
    obtain ⟨byte, rfl⟩ := List.length_eq_one_iff.mp single
    exact ⟨byte, by simp [bigEndian], rfl⟩
  · rintro ⟨byte, rfl, rfl⟩
    exact ⟨[byte], rfl, by simp [bigEndian], rfl⟩

/-- The magic number in front. -/
theorem readMagic_ok_iff {input rest : Bytes} :
    readUint 4 input = .ok (walEntryMagic, rest) ↔
      input = putBigEndian 4 walEntryMagic ++ rest := by
  rw [readUint_ok_iff]
  constructor
  · rintro ⟨bytes, width, spelled, rfl⟩
    have sameBytes := putBigEndian_bigEndian bytes
    rw [width, spelled] at sameBytes
    rw [sameBytes]
  · rintro rfl
    exact ⟨_, length_putBigEndian 4 _, bigEndian_putBigEndian_of_lt (by decide), rfl⟩

/-- A record is accepted exactly where all its fields are there. -/
theorem decodeWALBinary_ok_iff {input rest : Bytes} {entry : WALEntry} :
    decodeWALBinary input = .ok (entry, rest) ↔
      ∃ fields : RecordFields, input = fields.bytes ++ rest ∧ fields.entry = entry := by
  rw [decodeWALBinary_eq]
  constructor
  · intro success
    obtain ⟨⟨magic, afterMagic⟩, magicRead, success⟩ := bind_eq_ok_iff.mp success
    split_ifs at success with isMagic
    rw [not_not] at isMagic
    dsimp only at isMagic success
    rw [isMagic] at magicRead
    obtain ⟨⟨op, afterOp⟩, opRead, success⟩ := bind_eq_ok_iff.mp success
    obtain ⟨⟨key, afterKey⟩, keyRead, success⟩ := bind_eq_ok_iff.mp success
    obtain ⟨⟨value, afterValue⟩, valueRead, success⟩ := bind_eq_ok_iff.mp success
    obtain ⟨⟨nano, afterNano⟩, nanoRead, success⟩ := bind_eq_ok_iff.mp success
    obtain ⟨⟨version, afterVersion⟩, versionRead, success⟩ := bind_eq_ok_iff.mp success
    obtain ⟨⟨crc, afterCrc⟩, crcRead, success⟩ := bind_eq_ok_iff.mp success
    obtain ⟨entryEq, restEq⟩ := Prod.mk.inj (Except.ok.inj success)
    obtain ⟨opByte, rfl, rfl⟩ := readByte_ok_iff.mp opRead
    obtain ⟨keyFits, rfl⟩ := (readBlock_ok_iff (by decide)).mp keyRead
    obtain ⟨valueFits, rfl⟩ := (readBlock_ok_iff (by decide)).mp valueRead
    obtain ⟨expiry, expiryWidth, rfl, rfl⟩ := readUint_ok_iff.mp nanoRead
    obtain ⟨versionBytes, versionWidth, rfl, rfl⟩ := readUint_ok_iff.mp versionRead
    obtain ⟨crcBytes, crcWidth, rfl, rfl⟩ := readUint_ok_iff.mp crcRead
    refine ⟨⟨opByte, key, value, expiry, versionBytes, crcBytes, keyFits, valueFits,
      expiryWidth, versionWidth, crcWidth⟩, ?_, ?_⟩
    · rw [readMagic_ok_iff.mp magicRead, ← restEq]
      simp [RecordFields.bytes, RecordFields.parts, putBlock]
    · rw [← entryEq, RecordFields.entry]
      simp
  · rintro ⟨fields, rfl, rfl⟩
    have bytesEq : fields.bytes ++ rest = putBigEndian 4 walEntryMagic ++
        (fields.op :: (putBlock fields.key ++ (putBlock fields.value ++ (fields.expiry ++
          (fields.version ++ (fields.crc ++ rest)))))) := by
      simp [RecordFields.bytes, RecordFields.parts, putBlock]
    rw [bytesEq]
    refine bind_eq_ok_iff.mpr ⟨_, readMagic_ok_iff.mpr rfl, ?_⟩
    rw [if_neg (by simp)]
    refine bind_eq_ok_iff.mpr ⟨_, readByte_ok_iff.mpr ⟨_, rfl, rfl⟩, ?_⟩
    refine bind_eq_ok_iff.mpr
      ⟨_, (readBlock_ok_iff (by decide)).mpr ⟨fields.keyFits, rfl⟩, ?_⟩
    refine bind_eq_ok_iff.mpr
      ⟨_, (readBlock_ok_iff (by decide)).mpr ⟨fields.valueFits, rfl⟩, ?_⟩
    refine bind_eq_ok_iff.mpr
      ⟨_, readUint_ok_iff.mpr ⟨_, fields.expiryWidth, rfl, rfl⟩, ?_⟩
    refine bind_eq_ok_iff.mpr
      ⟨_, readUint_ok_iff.mpr ⟨_, fields.versionWidth, rfl, rfl⟩, ?_⟩
    refine bind_eq_ok_iff.mpr
      ⟨_, readUint_ok_iff.mpr ⟨_, fields.crcWidth, rfl, rfl⟩, ?_⟩
    simp [RecordFields.entry]

/-- The reads of a cut record: those of the fields that are there succeed, and the next one
finds the input at its end. -/
theorem decodeWALBinary_cut (fields : RecordFields) {count : Nat} (within : count < 9) :
    decodeWALBinary (fields.cut count) = .error .eof := by
  obtain ⟨op, key, value, expiry, version, crc, keyFits, valueFits, expiryWidth, versionWidth,
    crcWidth⟩ := fields
  have magicRead : ∀ rest, readUint 4 (putBigEndian 4 walEntryMagic ++ rest) =
      .ok (walEntryMagic, rest) := fun rest => readMagic_ok_iff.mpr rfl
  have opRead : ∀ rest, readUint 1 ([op] ++ rest) = .ok (op.toNat, rest) := fun rest =>
    readByte_ok_iff.mpr ⟨op, rfl, rfl⟩
  have block : ∀ {format : String} {limit : Nat} {text : Bytes} rest, limit < 2 ^ 32 →
      text.length ≤ limit →
      readBlock format limit (putBigEndian 4 text.length ++ (text ++ rest)) = .ok (text, rest) := by
    intro format limit text rest small fits
    rw [← List.append_assoc]
    exact readBlock_put format rest fits small
  have keyRead := fun format rest => @block format maxKeySize key rest (by decide) keyFits
  have valueRead := fun format rest =>
    @block format maxValueSize value rest (by decide) valueFits
  have expiryRead : ∀ rest, readUint 8 (expiry ++ rest) = .ok (bigEndian expiry, rest) :=
    fun rest => readUint_ok_iff.mpr ⟨_, expiryWidth, rfl, rfl⟩
  have versionRead : ∀ rest, readUint 8 (version ++ rest) = .ok (bigEndian version, rest) :=
    fun rest => readUint_ok_iff.mpr ⟨_, versionWidth, rfl, rfl⟩
  have uintEnd : ∀ width, readUint (width + 1) [] = .error .eof := fun width =>
    (readUint_eof_iff (Nat.succ_pos width)).mpr rfl
  have blockEnd : ∀ format limit, readBlock format limit [] = .error .eof := fun _ _ => rfl
  have lengthOnly : ∀ {format : String} {limit : Nat} {text : Bytes}, limit < 2 ^ 32 →
      text.length ≤ limit → readBlock format limit (putBigEndian 4 text.length ++ []) =
        if text = [] then .ok ([], []) else .error .eof := by
    intro format limit text small fits
    rw [List.append_nil]
    split_ifs with empty
    · rw [empty]
      exact block [] small (Nat.zero_le limit)
    · exact (readBlock_eof_iff small).mpr (Or.inr ⟨text, empty, fits, rfl⟩)
  have keyLength := fun format => @lengthOnly format maxKeySize key (by decide) keyFits
  have valueLength := fun format => @lengthOnly format maxValueSize value (by decide) valueFits
  have isMagic : ¬ walEntryMagic ≠ walEntryMagic := fun different => different rfl
  interval_cases count
  all_goals
    simp only [RecordFields.cut, RecordFields.parts, List.take_succ_cons, List.take_zero,
      List.flatten_cons, List.flatten_nil, decodeWALBinary_eq, decodeFields, Except.bind,
      magicRead, opRead, keyRead, valueRead, expiryRead, versionRead, uintEnd, blockEnd,
      keyLength, valueLength, isMagic, if_false]
  -- a length without its bytes: the end is met at once, or behind an empty block
  · by_cases empty : key = []
    · simp only [if_pos empty, blockEnd]
    · simp only [if_neg empty]
  · by_cases empty : value = []
    · simp only [if_pos empty, uintEnd]
    · simp only [if_neg empty]

/-- Reading meets the end of the input exactly at the end of a field. -/
theorem decodeWALBinary_eof_iff {input : Bytes} :
    decodeWALBinary input = .error .eof ↔
      ∃ fields : RecordFields, ∃ count < 9, input = fields.cut count := by
  constructor
  · intro failed
    rw [decodeWALBinary_eq] at failed
    have noKey : ([] : Bytes).length ≤ maxKeySize := by decide
    have noValue : ([] : Bytes).length ≤ maxValueSize := by decide
    rcases bind_eq_error_iff.mp failed with atMagic | ⟨⟨magic, rest⟩, magicRead, behindMagic⟩
    · refine ⟨.padded 0 [] [] noKey noValue, 0, by decide, ?_⟩
      exact (readUint_eof_iff (by decide)).mp atMagic
    split_ifs at behindMagic with isMagic
    · cases Except.error.inj behindMagic
    rw [not_not] at isMagic
    dsimp only at isMagic behindMagic
    rw [isMagic] at magicRead
    rw [readMagic_ok_iff.mp magicRead]
    rcases bind_eq_error_iff.mp behindMagic with atOp | ⟨⟨op, rest⟩, opRead, behindOp⟩
    · rw [(readUint_eof_iff (by decide)).mp atOp]
      exact ⟨.padded 0 [] [] noKey noValue, 1, by decide, rfl⟩
    obtain ⟨op, rfl, rfl⟩ := readByte_ok_iff.mp opRead
    rcases bind_eq_error_iff.mp behindOp with atKey | ⟨⟨key, rest⟩, keyRead, behindKey⟩
    · rcases (readBlock_eof_iff (by decide)).mp atKey with empty | ⟨key, -, keyFits, cutOff⟩
      · dsimp only at empty
        rw [empty]
        exact ⟨.padded op [] [] noKey noValue, 2, by decide, rfl⟩
      · dsimp only at cutOff
        rw [cutOff]
        exact ⟨.padded op key [] keyFits noValue, 3, by decide,
          by simp [RecordFields.cut, RecordFields.parts, RecordFields.padded]⟩
    obtain ⟨keyFits, restEq⟩ := (readBlock_ok_iff (by decide)).mp keyRead
    dsimp only at restEq
    rw [restEq]
    rcases bind_eq_error_iff.mp behindKey with atValue | ⟨⟨value, rest⟩, valueRead, behindValue⟩
    · rcases (readBlock_eof_iff (by decide)).mp atValue with empty | ⟨value, -, valueFits, cutOff⟩
      · dsimp only at empty
        rw [empty]
        exact ⟨.padded op key [] keyFits noValue, 4, by decide,
          by simp [RecordFields.cut, RecordFields.parts, RecordFields.padded, putBlock]⟩
      · dsimp only at cutOff
        rw [cutOff]
        exact ⟨.padded op key value keyFits valueFits, 5, by decide,
          by simp [RecordFields.cut, RecordFields.parts, RecordFields.padded, putBlock]⟩
    obtain ⟨valueFits, restEq⟩ := (readBlock_ok_iff (by decide)).mp valueRead
    dsimp only at restEq
    rw [restEq]
    rcases bind_eq_error_iff.mp behindValue with atNano | ⟨⟨nano, rest⟩, nanoRead, behindNano⟩
    · have empty := (readUint_eof_iff (by decide)).mp atNano
      dsimp only at empty
      rw [empty]
      exact ⟨.padded op key value keyFits valueFits, 6, by decide,
        by simp [RecordFields.cut, RecordFields.parts, RecordFields.padded, putBlock]⟩
    obtain ⟨expiry, expiryWidth, -, restEq⟩ := readUint_ok_iff.mp nanoRead
    dsimp only at restEq
    rw [restEq]
    rcases bind_eq_error_iff.mp behindNano with atVersion | ⟨⟨version, rest⟩, versionRead, behindVersion⟩
    · have empty := (readUint_eof_iff (by decide)).mp atVersion
      dsimp only at empty
      rw [empty]
      exact ⟨{ RecordFields.padded op key value keyFits valueFits with
          expiry := expiry, expiryWidth := expiryWidth }, 7, by decide,
        by simp [RecordFields.cut, RecordFields.parts, RecordFields.padded, putBlock]⟩
    obtain ⟨version, versionWidth, -, restEq⟩ := readUint_ok_iff.mp versionRead
    dsimp only at restEq
    rw [restEq]
    rcases bind_eq_error_iff.mp behindVersion with atCrc | ⟨⟨crc, rest⟩, crcRead, behindCrc⟩
    · have empty := (readUint_eof_iff (by decide)).mp atCrc
      dsimp only at empty
      rw [empty]
      exact ⟨{ RecordFields.padded op key value keyFits valueFits with
          expiry := expiry, expiryWidth := expiryWidth
          version := version, versionWidth := versionWidth }, 8, by decide,
        by simp [RecordFields.cut, RecordFields.parts, RecordFields.padded, putBlock]⟩
    cases behindCrc
  · rintro ⟨fields, count, within, rfl⟩
    exact decodeWALBinary_cut fields within

/-! ## Replaying a log -/

/-- A log made of complete records: `DecodeWALEntry` accepts each of them as a whole and
`validateWALEntry` validates what it gives. -/
def CompleteRecords (wal : Bytes) (records : List (Bytes × WALEntry)) : Prop :=
  wal = records.flatMap Prod.fst ∧
    ∀ record ∈ records, decodeWALBinary record.1 = .ok (record.2, []) ∧
      validateWALEntry record.2 = true

/-- Complete records with the first fields of another one behind them. -/
def CutBetweenFields (wal : Bytes) : Prop :=
  ∃ whole records, CompleteRecords whole records ∧
    ∃ fields : RecordFields, ∃ count, 0 < count ∧ count < 9 ∧ wal = whole ++ fields.cut count

/-- A replay of the log that returns no error has read complete records to the end of the
file, and records appended to it are recovered by the next replay. -/
def FailsClosed (env : Externals) (opts : Options) (wal : Bytes) : Prop :=
  ∀ (disk : Disk) (memory after : Memory), disk.wal = wal →
    replayWAL env opts disk memory = .ok after →
    (∃ records, CompleteRecords wal records) ∧
      ∀ appended records, CompleteRecords appended records →
        replayWAL env opts { disk with wal := wal ++ appended } memory =
          .ok ((records.map Prod.snd).foldl Memory.replay after)

section Replay

variable {env : Externals} {opts : Options} {wal : Bytes}

theorem decodeChecked_ok_iff {input rest : Bytes} {entry : WALEntry} :
    decodeChecked env .binary input = .ok (entry, rest) ↔
      decodeWALBinary input = .ok (entry, rest) ∧ validateWALEntry entry = true := by
  rw [decodeChecked, decodeWALEntry]
  cases decoded : decodeWALBinary input with
  | error failure => cases failure <;> simp
  | ok taken =>
    obtain ⟨other, remaining⟩ := taken
    dsimp only
    split_ifs with valid
    · constructor
      · intro same
        obtain ⟨rfl, rfl⟩ := Prod.mk.inj (Except.ok.inj same)
        exact ⟨rfl, valid⟩
      · exact fun both => both.1
    · simp only [false_iff, not_and]
      intro same validToo
      obtain ⟨rfl, rfl⟩ := Prod.mk.inj (Except.ok.inj same)
      exact valid validToo

theorem decodeChecked_eof_iff {input : Bytes} :
    decodeChecked env .binary input = .error .eof ↔ decodeWALBinary input = .error .eof := by
  rw [decodeChecked, decodeWALEntry]
  cases decoded : decodeWALBinary input with
  | error failure => cases failure <;> simp
  | ok taken =>
    obtain ⟨other, remaining⟩ := taken
    dsimp only
    split_ifs <;> simp

theorem bytes_ne_nil (fields : RecordFields) : fields.bytes ≠ [] := by
  intro empty
  have lengths := congrArg List.length empty
  simp [RecordFields.bytes, RecordFields.parts] at lengths

theorem cut_ne_nil (fields : RecordFields) {count : Nat} (positive : 0 < count) :
    ∃ more, fields.cut count = putBigEndian 4 walEntryMagic ++ more := by
  obtain ⟨count, rfl⟩ := Nat.exists_eq_succ_of_ne_zero (Nat.ne_of_gt positive)
  exact ⟨_, rfl⟩

/-- The decoder takes a record off the front. -/
theorem decodeChecked_consumes (input : Bytes) (entry : WALEntry) (rest : Bytes)
    (decoded : decodeChecked env .binary input = .ok (entry, rest)) :
    rest.length < input.length := by
  obtain ⟨fields, rfl, -⟩ := decodeWALBinary_ok_iff.mp (decodeChecked_ok_iff.mp decoded).1
  have positive := List.length_pos_iff.mpr (bytes_ne_nil fields)
  rw [List.length_append]
  omega

/-- A record that is accepted as a whole is accepted in front of anything. -/
theorem frames_iff {piece : Bytes} {entry : WALEntry} :
    Frames (decodeChecked env .binary) piece entry ↔
      decodeWALBinary piece = .ok (entry, []) ∧ validateWALEntry entry = true := by
  constructor
  · intro framed
    have alone := framed []
    rw [List.append_nil] at alone
    exact decodeChecked_ok_iff.mp alone
  · rintro ⟨decoded, valid⟩ more
    obtain ⟨fields, rfl, rfl⟩ := decodeWALBinary_ok_iff.mp decoded
    rw [List.append_nil]
    exact decodeChecked_ok_iff.mpr ⟨decodeWALBinary_ok_iff.mpr ⟨fields, rfl, rfl⟩, valid⟩

theorem decodeChecked_takes (input : Bytes) (entry : WALEntry) (rest : Bytes)
    (decoded : decodeChecked env .binary input = .ok (entry, rest)) :
    ∃ piece, input = piece ++ rest ∧ Frames (decodeChecked env .binary) piece entry := by
  obtain ⟨accepted, valid⟩ := decodeChecked_ok_iff.mp decoded
  obtain ⟨fields, rfl, rfl⟩ := decodeWALBinary_ok_iff.mp accepted
  refine ⟨fields.bytes, rfl, frames_iff.mpr ⟨?_, valid⟩⟩
  exact decodeWALBinary_ok_iff.mpr ⟨fields, (List.append_nil _).symm, rfl⟩

/-- Complete records are read in front of whatever is behind them. -/
theorem CompleteRecords.reads {records : List (Bytes × WALEntry)} {rest tail : Bytes}
    {items : List WALEntry} (complete : CompleteRecords wal records)
    (later : Reads (decodeChecked env .binary) rest items tail) :
    Reads (decodeChecked env .binary) (wal ++ rest) (records.map Prod.snd ++ items) tail := by
  rw [complete.1]
  exact Reads.of_frames (fun record member => frames_iff.mpr (complete.2 record member)) later

/-- What has been read is complete records. -/
theorem completeRecords_of_reads {items : List WALEntry} {tail : Bytes}
    (reads : Reads (decodeChecked env .binary) wal items tail) :
    ∃ whole records, CompleteRecords whole records ∧ wal = whole ++ tail ∧
      items = records.map Prod.snd := by
  obtain ⟨records, walEq, itemsEq, framed⟩ := reads.frames decodeChecked_takes
  exact ⟨_, records, ⟨rfl, fun record member => frames_iff.mp (framed record member)⟩, walEq,
    itemsEq⟩

/-- A load that does not use the JSON serializer on some log reads every log that starts with
the magic number with the binary one. -/
theorem chooseFormat_of_magic (notJson : chooseFormat opts (detectWALFormat wal) ≠ .ok .json)
    (more : Bytes) :
    chooseFormat opts (detectWALFormat (putBigEndian 4 walEntryMagic ++ more)) =
      .ok .binary := by
  have detected : detectWALFormat (putBigEndian 4 walEntryMagic ++ more) = .ok .binary :=
    detectMagic_binary "WAL" more (by decide)
  unfold chooseFormat at notJson ⊢
  cases mode : opts.autoDetectMode with
  | enabled => exact detected
  | disabled =>
    rw [mode] at notJson
    dsimp only at notJson ⊢
    cases format : opts.serializerFormat with
    | binary => rfl
    | json => exact absurd (congrArg Except.ok format) notJson

/-- The records of a log that can be read up to a tail on which the reader meets the end of the
input. -/
theorem walEntries_of_reads {disk : Disk} {items : List WALEntry} {tail : Bytes}
    (binary : ∀ more, chooseFormat opts
      (detectWALFormat (putBigEndian 4 walEntryMagic ++ more)) = .ok .binary)
    (reads : Reads (decodeChecked env .binary) disk.wal items tail)
    (stops : decodeWALBinary tail = .error .eof) : walEntries env opts disk = .ok items := by
  have decoded : decodeAll (decodeChecked env .binary) ReadError.ends (disk.wal.length + 1)
      disk.wal = .ok items :=
    reads.decodeAll_eq (decodeChecked_eof_iff.mpr stops) rfl decodeChecked_consumes
      (Nat.lt_succ_self _)
  have starts : (disk.wal = [] ∧ items = []) ∨
      ∃ more, disk.wal = putBigEndian 4 walEntryMagic ++ more := by
    cases reads with
    | done =>
      obtain ⟨fields, count, -, walEq⟩ := decodeWALBinary_eof_iff.mp stops
      rcases Nat.eq_zero_or_pos count with rfl | positive
      · exact Or.inl ⟨walEq, rfl⟩
      · rw [walEq]
        exact Or.inr (cut_ne_nil fields positive)
    | next first later =>
      obtain ⟨fields, walEq, -⟩ := decodeWALBinary_ok_iff.mp (decodeChecked_ok_iff.mp first).1
      exact Or.inr ⟨_, walEq.trans (List.append_assoc _ _ _)⟩
  rw [walEntries]
  rcases starts with ⟨empty, nothing⟩ | ⟨more, walEq⟩
  · rw [if_pos empty, nothing]
  · have nonempty : disk.wal ≠ [] := by
      rw [walEq]
      exact fun empty => by simpa using congrArg List.length empty
    rw [if_neg nonempty]
    have format := binary more
    rw [← walEq] at format
    rw [format]
    dsimp only
    rw [decoded]

/-- The rounds of a replay that returns no error. -/
theorem reads_of_walEntries {disk : Disk} {items : List WALEntry}
    (notJson : chooseFormat opts (detectWALFormat disk.wal) ≠ .ok .json)
    (returned : walEntries env opts disk = .ok items) :
    ∃ tail, Reads (decodeChecked env .binary) disk.wal items tail ∧
      decodeWALBinary tail = .error .eof := by
  rw [walEntries] at returned
  split_ifs at returned with empty
  · obtain rfl := Except.ok.inj returned
    rw [empty]
    exact ⟨[], .done [], rfl⟩
  · cases chosen : chooseFormat opts (detectWALFormat disk.wal) with
    | error failure => simp [chosen] at returned
    | ok format =>
      cases format with
      | json => exact absurd chosen notJson
      | binary =>
        simp only [chosen] at returned
        cases decoded : decodeAll (decodeChecked env .binary) ReadError.ends
            (disk.wal.length + 1) disk.wal with
        | error failure => simp [decoded] at returned
        | ok records =>
          simp only [decoded] at returned
          obtain rfl := Except.ok.inj returned
          obtain ⟨tail, failure, reads, stops, isEnd⟩ := Reads.of_decodeAll
            decodeChecked_consumes (Nat.lt_succ_self _) decoded
          obtain rfl : failure = .eof := beq_iff_eq.mp isEnd
          exact ⟨tail, reads, decodeChecked_eof_iff.mp stops⟩

theorem replayWAL_eq_ok_iff {disk : Disk} {memory after : Memory} :
    replayWAL env opts disk memory = .ok after ↔
      ∃ items, walEntries env opts disk = .ok items ∧
        items.foldl Memory.replay memory = after := by
  rw [replayWAL]
  cases walEntries env opts disk with
  | error failure => simp
  | ok items => simp

/-- A log cut between two fields is replayed as if it ended before the cut record. -/
theorem not_failsClosed_of_cut (notJson : chooseFormat opts (detectWALFormat wal) ≠ .ok .json)
    (torn : CutBetweenFields wal) : ¬ FailsClosed env opts wal := by
  intro closed
  obtain ⟨whole, records, complete, fields, count, positive, within, walEq⟩ := torn
  have stops := decodeWALBinary_cut fields within
  have reads : Reads (decodeChecked env .binary) (whole ++ fields.cut count) _ _ :=
    complete.reads (.done (fields.cut count))
  rw [← walEq] at reads
  have returned := @walEntries_of_reads env opts { wal := wal } _ _
    (chooseFormat_of_magic notJson) reads stops
  obtain ⟨⟨others, alsoComplete⟩, -⟩ := closed { wal := wal } (newMemory 1) _ rfl
    (replayWAL_eq_ok_iff.mpr ⟨_, returned, rfl⟩)
  have alsoReads : Reads (decodeChecked env .binary) (wal ++ []) _ _ :=
    alsoComplete.reads (.done [])
  rw [List.append_nil] at alsoReads
  have sameTail := reads.tail_unique (decodeChecked_eof_iff.mpr stops) alsoReads
    (decodeChecked_eof_iff.mpr rfl)
  obtain ⟨more, starts⟩ := cut_ne_nil fields positive
  rw [starts] at sameTail
  simpa using congrArg List.length sameTail

/-- Replay in the binary format fails closed exactly on the logs that are not cut between two
fields of a record. -/
theorem failsClosed_iff (env : Externals) (opts : Options) (wal : Bytes)
    (notJson : chooseFormat opts (detectWALFormat wal) ≠ .ok .json) :
    FailsClosed env opts wal ↔ ¬ CutBetweenFields wal := by
  constructor
  · exact fun closed torn => not_failsClosed_of_cut notJson torn closed
  · intro notCut disk memory after walEq returned
    subst walEq
    obtain ⟨items, listed, afterEq⟩ := replayWAL_eq_ok_iff.mp returned
    obtain ⟨tail, reads, stops⟩ := reads_of_walEntries notJson listed
    obtain ⟨whole, records, complete, walEq, itemsEq⟩ := completeRecords_of_reads reads
    have atEnd : tail = [] := by
      obtain ⟨fields, count, within, tailEq⟩ := decodeWALBinary_eof_iff.mp stops
      rcases Nat.eq_zero_or_pos count with rfl | positive
      · exact tailEq
      · rw [tailEq] at walEq
        exact absurd ⟨whole, records, complete, fields, count, positive, within, walEq⟩ notCut
    subst atEnd
    rw [List.append_nil] at walEq
    rw [← walEq] at complete
    refine ⟨⟨records, complete⟩, ?_⟩
    intro appended added addedComplete
    have allRead : Reads (decodeChecked env .binary) (disk.wal ++ appended)
        (items ++ added.map Prod.snd) [] := by
      have addedRead : Reads (decodeChecked env .binary) (appended ++ []) _ _ :=
        addedComplete.reads (.done [])
      rw [List.append_nil, List.append_nil] at addedRead
      rw [itemsEq]
      exact complete.reads addedRead
    have relisted := @walEntries_of_reads env opts { disk with wal := disk.wal ++ appended } _ _
      (chooseFormat_of_magic notJson) allRead rfl
    apply replayWAL_eq_ok_iff.mpr
    exact ⟨_, relisted, by rw [List.foldl_append, afterEq]⟩

end Replay

/-- Two sets, the second of which fails when all but its checksum has reached the log. -/
def tornStore : Store :=
  Store.after uncalled {}
    [.reopen {}, .set (ascii "a") [1] 0 0 none, .set (ascii "b") [2] 0 0 (some 31)]

/-- The directory is opened again, which reports no error, and a third key is set. -/
def tornReopened : Store :=
  Store.after uncalled tornStore.disk [.reopen {}, .set (ascii "c") [3] 0 0 none]

/-- The log of the two sets. -/
def tornLog : Bytes := tornStore.disk.wal

/-- The fields of the second record; its checksum is not in the log. -/
def tornFields : RecordFields :=
  { RecordFields.padded opSet (ascii "b") [2] (by decide) (by decide) with
    version := putBigEndian 8 2, versionWidth := rfl }

theorem tornLog_cut : CutBetweenFields tornLog := by
  have first : decodeWALBinary (tornLog.take 35) =
      .ok (setRecord opSet (ascii "a") [1] 0 0 1, []) := by decide +kernel
  have valid : validateWALEntry (setRecord opSet (ascii "a") [1] 0 0 1) = true := by
    decide +kernel
  have joined : tornLog = tornLog.take 35 ++ tornFields.cut 8 := by decide +kernel
  refine ⟨tornLog.take 35, [(tornLog.take 35, setRecord opSet (ascii "a") [1] 0 0 1)], ⟨?_, ?_⟩,
    tornFields, 8, by decide, by decide, joined⟩
  · exact (List.flatMap_singleton _ _).symm
  · intro record member
    rw [List.mem_singleton.mp member]
    exact ⟨first, valid⟩

theorem tornLog_binary :
    chooseFormat (setDefaults {}) (detectWALFormat tornLog) ≠ .ok .json := by
  have chosen : chooseFormat (setDefaults {}) (detectWALFormat tornLog) = .ok .binary := by
    decide +kernel
  rw [chosen]
  exact fun same => by cases Except.ok.inj same

/-- The condition decides the torn log. -/
theorem failsClosed_iff_tornLog :
    chooseFormat (setDefaults {}) (detectWALFormat tornLog) ≠ .ok .json ∧
      (FailsClosed uncalled (setDefaults {}) tornLog ↔ ¬ CutBetweenFields tornLog) :=
  ⟨tornLog_binary, failsClosed_iff uncalled (setDefaults {}) tornLog tornLog_binary⟩

/-- The torn record is dropped without an error; the record of the next set, which returns no
error, lands behind it, and the directory cannot be opened any more. -/
theorem torn_record_accepted :
    errorOf (newKVStore uncalled {} tornStore.disk) = none ∧
      ((Store.after uncalled tornStore.disk [.reopen {}]).set uncalled (ascii "c") [3] 0 0
        none).2 = none ∧
      (errorOf (newKVStore uncalled {} tornReopened.disk)).isSome = true ∧
      ¬ FailsClosed uncalled (setDefaults {}) tornStore.disk.wal :=
  ⟨by decide +kernel, by decide +kernel, by decide +kernel,
    not_failsClosed_of_cut tornLog_binary tornLog_cut⟩

end Plumego.KvEngine
