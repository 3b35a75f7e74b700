/-
Module: Plumego.Proofs.KvCodec
Purpose: Round trips of the key-value engine's serialisers, record by record
  and over whole files, in both formats, and the detection of a file's format.
Trusted boundary: `JsonCodec.Lawful` states what is assumed of `encoding/json`.
Main exports: ExpiryFits, JsonCodec.Lawful, WALFits, EntryFits, decodeWALEntry_encoded,
  decodeEntry_encoded, walEntries_logged
-/
import Plumego.KvEngine.Store

namespace Plumego.KvEngine

open Go Lib

/-! ## Binary fields -/

theorem readUint_put (width value : Nat) (rest : Bytes) :
    readUint width (putBigEndian width value ++ rest) =
      .ok (value % 256 ^ width, rest) := by
  rw [readUint, readFull_append rest (length_putBigEndian width value)]
  simp only [bigEndian_putBigEndian]

theorem readUint_byte (byte : UInt8) (rest : Bytes) :
    readUint 1 ([byte] ++ rest) = .ok (byte.toNat, rest) := by
  have single : [byte].length = 1 := rfl
  rw [readUint, readFull_append rest single]
  simp [bigEndian]

theorem readBlock_put (format : String) {limit : Nat} {text : Bytes} (rest : Bytes)
    (bound : text.length ≤ limit) (small : limit < 2 ^ 32) :
    readBlock format limit (putBlock text ++ rest) = .ok (text, rest) := by
  rw [readBlock, putBlock, List.append_assoc, readUint_put]
  have lengthEq : text.length % 256 ^ 4 = text.length := Nat.mod_eq_of_lt (by omega)
  simp only [lengthEq]
  rw [if_neg (by omega), readFull_append rest rfl]

/-- An expiry the binary format can hold: none, or an instant from 1970 to
2262. -/
def ExpiryFits (expireAt : Int) : Prop :=
  expireAt = zeroTime ∨ (0 < expireAt ∧ expireAt < 2 ^ 63)

instance (expireAt : Int) : Decidable (ExpiryFits expireAt) :=
  inferInstanceAs (Decidable (_ ∨ _))

theorem expireTime_expireNano {expireAt : Int} (fits : ExpiryFits expireAt) :
    expireTime (toInt64 (toUint64 (expireNano expireAt))) = expireAt := by
  rcases fits with rfl | ⟨positive, bound⟩
  · decide
  · have notZero : isZero expireAt = false := by
      rw [isZero, beq_eq_false_iff_ne]
      intro same
      rw [same] at positive
      exact absurd positive (by decide)
    have range : InInt64 expireAt := ⟨by omega, bound⟩
    rw [expireNano, notZero, unixNano, wrapInt64_of_inInt64 range]
    simp only [Bool.false_eq_true, if_false]
    rw [toInt64_toUint64 range, expireTime, if_pos positive]

theorem toInt64_toUint64_mod {value : Int} (range : InInt64 value) :
    toInt64 (toUint64 value % 256 ^ 8) = value := by
  have small : toUint64 value % 256 ^ 8 = toUint64 value :=
    Nat.mod_eq_of_lt (by have := toUint64_lt value; omega)
  rw [small, toInt64_toUint64 range]

/-- The sizes both encoders accept. -/
theorem sizes_of_none {key value : Bytes} (accepted : sizeError key value = none) :
    key.length ≤ maxKeySize ∧ value.length ≤ maxValueSize := by
  unfold sizeError at accepted
  split at accepted
  · cases accepted
  · split at accepted
    · cases accepted
    · omega

/-- A binary log record comes back with its expiry as the format holds it. -/
theorem decodeWALBinary_written {record : WALEntry} {data : Bytes} (rest : Bytes)
    (encoded : encodeWALBinary record = .ok data) (version : InInt64 record.version) :
    decodeWALBinary (data ++ rest) =
      .ok ({ record with
        expireAt := expireTime (toInt64 (toUint64 (expireNano record.expireAt))) }, rest) := by
  unfold encodeWALBinary at encoded
  cases accepted : sizeError record.key record.value with
  | some failure => simp [accepted] at encoded
  | none =>
    obtain ⟨keySize, valueSize⟩ := sizes_of_none accepted
    rw [accepted, Except.ok.injEq] at encoded
    subst encoded
    have expirySmall : toUint64 (expireNano record.expireAt) % 256 ^ 8 =
        toUint64 (expireNano record.expireAt) :=
      Nat.mod_eq_of_lt (by have := toUint64_lt (expireNano record.expireAt); omega)
    have magicSmall : walEntryMagic % 256 ^ 4 = walEntryMagic := by decide
    have crcSmall : record.crc.toNat % 256 ^ 4 = record.crc.toNat :=
      Nat.mod_eq_of_lt (by have := record.crc.toNat_lt; omega)
    simp only [decodeWALBinary, List.append_assoc]
    simp only [readUint_put, readUint_byte, readBlock_put _ _ keySize (by decide),
      readBlock_put _ _ valueSize (by decide), bind, Except.bind, pure, Except.pure,
      magicSmall, ne_eq, not_true_eq_false, if_false, expirySmall, crcSmall,
      toInt64_toUint64_mod version]
    simp

/-- Binary log records. -/
theorem decodeWALBinary_encoded {record : WALEntry} {data : Bytes} (rest : Bytes)
    (encoded : encodeWALBinary record = .ok data) (expiry : ExpiryFits record.expireAt)
    (version : InInt64 record.version) :
    decodeWALBinary (data ++ rest) = .ok (record, rest) := by
  rw [decodeWALBinary_written rest encoded version, expireTime_expireNano expiry]

/-- Binary snapshot entries. -/
theorem decodeEntryBinary_encoded {entry : Entry} {data : Bytes} (rest : Bytes)
    (encoded : encodeEntryBinary entry = .ok data) (expiry : ExpiryFits entry.expireAt)
    (version : InInt64 entry.version) (size : InInt64 entry.size) :
    decodeEntryBinary (data ++ rest) = .ok (entry, rest) := by
  unfold encodeEntryBinary at encoded
  cases accepted : sizeError entry.key entry.value with
  | some failure => simp [accepted] at encoded
  | none =>
    obtain ⟨keySize, valueSize⟩ := sizes_of_none accepted
    rw [accepted, Except.ok.injEq] at encoded
    subst encoded
    have expirySmall : toUint64 (expireNano entry.expireAt) % 256 ^ 8 =
        toUint64 (expireNano entry.expireAt) :=
      Nat.mod_eq_of_lt (by have := toUint64_lt (expireNano entry.expireAt); omega)
    simp only [decodeEntryBinary, List.append_assoc]
    simp only [readUint_put, readBlock_put _ _ keySize (by decide),
      readBlock_put _ _ valueSize (by decide), bind, Except.bind, pure, Except.pure,
      expirySmall, expireTime_expireNano expiry, toInt64_toUint64_mod version,
      toInt64_toUint64_mod size]

/-- The binary snapshot header. -/
theorem readSnapshotHeaderBinary_written (created : Time) (rest : Bytes) :
    readSnapshotHeaderBinary (snapshotHeaderBinary created ++ rest) = .ok rest := by
  have magicSmall : magicNumber % 256 ^ 4 = magicNumber := by decide
  have versionSmall : snapshotVersion % 256 ^ 4 = snapshotVersion := by decide
  simp only [readSnapshotHeaderBinary, snapshotHeaderBinary, List.append_assoc]
  simp only [readUint_put, bind, Except.bind, pure, Except.pure, magicSmall, versionSmall,
    ne_eq, not_true_eq_false, if_false]

/-! ## JSON lines -/

/-- The text of a JSON object with a field, on one line. -/
structure IsObjectLine (line : Bytes) : Prop where
  shape : ∃ body, line = 123 :: 34 :: (body ++ [125])
  oneLine : newline ∉ line

/-- What the engine relies on in `encoding/json`: a record that marshals gives
an object on one line, which unmarshals to the record with each invalid UTF-8
byte of its key replaced. -/
structure JsonCodec.Lawful (codec : JsonCodec) : Prop where
  walLine : ∀ record line, codec.marshalWAL record = some line → IsObjectLine line
  walRead : ∀ record line, codec.marshalWAL record = some line →
    codec.unmarshalWAL line = some { record with key := coerceUTF8 record.key }
  entryLine : ∀ entry line, codec.marshalEntry entry = some line → IsObjectLine line
  entryRead : ∀ entry line, codec.marshalEntry entry = some line →
    codec.unmarshalEntry line = some { entry with key := coerceUTF8 entry.key }
  headerLine : ∀ created, IsObjectLine (codec.header created)
  headerRead : ∀ created, codec.unmarshalHeader (codec.header created) = true

theorem stripped_of_head {words : List Bytes} {byte : UInt8} (rest : Bytes)
    (starts : ∀ word ∈ words, word.head? ≠ some byte) (nonempty : [] ∉ words) :
    Stripped words (byte :: rest) := by
  intro word member isFront
  cases word with
  | nil => exact nonempty member
  | cons first others =>
    rw [List.cons_prefix_cons] at isFront
    exact starts _ member (by rw [isFront.1]; rfl)

namespace IsObjectLine

variable {line : Bytes}

/-- A line read with its newline is trimmed to the object. -/
theorem trimSpace_newline (object : IsObjectLine line) :
    trimSpace (line ++ [newline]) = line := by
  obtain ⟨body, shape⟩ := object.shape
  have left : trimSpaceLeft (line ++ [newline]) = line ++ [newline] := by
    rw [trimSpaceLeft, shape]
    exact stripWords_of_stripped (stripped_of_head _ (by decide) (by decide)) _
  have reversed : line.reverse = 125 :: (body.reverse ++ [34, 123]) := by
    rw [shape]
    simp
  have first : (whiteSpace.map List.reverse).find?
      (·.isPrefixOf (newline :: line.reverse)) = some [newline] := rfl
  have right : trimSpaceRight (line ++ [newline]) = line := by
    rw [trimSpaceRight, List.reverse_append, List.reverse_singleton, List.singleton_append,
      List.length_append, List.length_singleton, stripWords, first]
    dsimp only
    rw [List.length_singleton, List.drop_succ_cons, List.drop_zero, reversed,
      stripWords_of_stripped (stripped_of_head _ (by decide) (by decide)), ← reversed,
      List.reverse_reverse]
  rw [trimSpace, left, right]

theorem takeWhile_line (object : IsObjectLine line) (rest : Bytes) :
    (line ++ newline :: rest).takeWhile (· != newline) = line ∧
      (line ++ newline :: rest).dropWhile (· != newline) = newline :: rest := by
  have inside : ∀ byte ∈ line, (byte != newline) = true := by
    intro byte member
    rw [bne_iff_ne]
    rintro rfl
    exact object.oneLine member
  constructor
  · rw [List.takeWhile_append_of_pos inside, List.takeWhile_cons_of_neg (by simp),
      List.append_nil]
  · rw [List.dropWhile_append_of_pos inside, List.dropWhile_cons_of_neg (by simp)]

/-- Reading one line. -/
theorem readJSONLine_eq (object : IsObjectLine line) (rest : Bytes) :
    readJSONLine (line ++ newline :: rest) = .ok (line, rest) := by
  obtain ⟨taken, dropped⟩ := object.takeWhile_line rest
  have notEmpty : line ≠ [] := by
    obtain ⟨body, shape⟩ := object.shape
    rw [shape]
    exact List.cons_ne_nil _ _
  rw [readJSONLine, readJSONLineLoop, taken, dropped]
  simp only [object.trimSpace_newline, if_neg notEmpty]

end IsObjectLine

/-! ## One record in either format -/

/-- A record that comes back unchanged from the format it is written in. -/
def WALFits (format : SerializationFormat) (record : WALEntry) : Prop :=
  match format with
  | .binary => ExpiryFits record.expireAt ∧ InInt64 record.version
  | .json => validUTF8 record.key = true

/-- An entry that comes back unchanged from the format it is written in. -/
def EntryFits (format : SerializationFormat) (entry : Entry) : Prop :=
  match format with
  | .binary => ExpiryFits entry.expireAt ∧ InInt64 entry.version ∧ InInt64 entry.size
  | .json => validUTF8 entry.key = true

section Records

variable {codec : JsonCodec} {format : SerializationFormat}

theorem decodeWALEntry_encoded (lawful : format = .json → codec.Lawful) {record : WALEntry} {data : Bytes}
    (encoded : encodeWALEntry codec format record = .ok data)
    (fits : WALFits format record) (rest : Bytes) :
    decodeWALEntry codec format (data ++ rest) = .ok (record, rest) := by
  cases format with
  | binary => exact decodeWALBinary_encoded rest encoded fits.1 fits.2
  | json =>
    unfold encodeWALEntry encodeJSONLine at encoded
    cases marshalled : codec.marshalWAL record with
    | none => simp [marshalled] at encoded
    | some line =>
      simp only [marshalled, Except.ok.injEq] at encoded
      have sameKey : coerceUTF8 record.key = record.key := coerceUTF8_of_valid fits
      have readBack := (lawful rfl).walRead record line marshalled
      rw [sameKey] at readBack
      rw [← encoded, List.append_assoc, List.singleton_append, decodeWALEntry,
        decodeJSONLine, ((lawful rfl).walLine record line marshalled).readJSONLine_eq]
      simp only [readBack]

theorem decodeEntry_encoded (lawful : format = .json → codec.Lawful) {entry : Entry} {data : Bytes}
    (encoded : encodeEntry codec format entry = .ok data)
    (fits : EntryFits format entry) (rest : Bytes) :
    decodeEntry codec format (data ++ rest) = .ok (entry, rest) := by
  cases format with
  | binary => exact decodeEntryBinary_encoded rest encoded fits.1 fits.2.1 fits.2.2
  | json =>
    unfold encodeEntry encodeJSONLine at encoded
    cases marshalled : codec.marshalEntry entry with
    | none => simp [marshalled] at encoded
    | some line =>
      simp only [marshalled, Except.ok.injEq] at encoded
      have sameKey : coerceUTF8 entry.key = entry.key := coerceUTF8_of_valid fits
      have readBack := (lawful rfl).entryRead entry line marshalled
      rw [sameKey] at readBack
      rw [← encoded, List.append_assoc, List.singleton_append, decodeEntry,
        decodeJSONLine, ((lawful rfl).entryLine entry line marshalled).readJSONLine_eq]
      simp only [readBack]

theorem readSnapshotHeader_written (lawful : format = .json → codec.Lawful) (created : Time)
    (rest : Bytes) :
    readSnapshotHeader codec format (snapshotHeader codec format created ++ rest) =
      .ok rest := by
  cases format with
  | binary => exact readSnapshotHeaderBinary_written created rest
  | json =>
    rw [snapshotHeader, List.append_assoc, List.singleton_append, readSnapshotHeader,
      ((lawful rfl).headerLine created).readJSONLine_eq]
    simp only [(lawful rfl).headerRead created, if_true]

theorem decodeWALEntry_nil : decodeWALEntry codec format [] = .error .eof := by
  cases format with
  | binary => rfl
  | json => rfl

theorem decodeEntry_nil : decodeEntry codec format [] = .error .eof := by
  cases format with
  | binary => rfl
  | json => rfl

end Records

/-! ## Detecting the format -/

theorem detectMagic_binary (kind : String) {magic : Nat} (rest : Bytes)
    (small : magic < 256 ^ 4) :
    detectMagic kind magic (putBigEndian 4 magic ++ rest) = .ok .binary := by
  have taken : (putBigEndian 4 magic ++ rest).take 4 = putBigEndian 4 magic := by
    rw [List.take_append_of_le_length (by simp)]
    exact List.take_of_length_le (by simp)
  rw [detectMagic, if_neg (by simp), taken, bigEndian_putBigEndian_of_lt small, if_pos rfl]

/-- An object line is detected as JSON under any magic number that starts with
a smaller byte than the opening brace. -/
theorem detectMagic_json (kind : String) {magic : Nat} {line : Bytes} (rest : Bytes)
    (object : IsObjectLine line) (smaller : magic < 123 * 256 ^ 3) :
    detectMagic kind magic (line ++ newline :: rest) = .ok .json := by
  obtain ⟨body, shape⟩ := object.shape
  have front : ∃ second third fourth more,
      line ++ newline :: rest = 123 :: second :: third :: fourth :: more := by
    rw [shape]
    cases body with
    | nil => exact ⟨34, 125, newline, rest, rfl⟩
    | cons third body =>
      cases body with
      | nil => exact ⟨34, third, 125, newline :: rest, rfl⟩
      | cons fourth body =>
        exact ⟨34, third, fourth, body ++ [125] ++ newline :: rest, by simp⟩
  obtain ⟨second, third, fourth, more, frontEq⟩ := front
  have large : magic < bigEndian [123, second, third, fourth] := by
    refine lt_of_lt_of_le smaller ?_
    have split := foldl_bigEndian [second, third, fourth] 123
    have start : 0 * 256 + (123 : UInt8).toNat = 123 := by decide
    rw [bigEndian, List.foldl_cons, start, split]
    exact Nat.le_add_right _ _
  rw [frontEq, detectMagic, if_neg (by simp), List.take_succ_cons, List.take_succ_cons,
    List.take_succ_cons, List.take_succ_cons, List.take_zero, if_neg (by omega)]
  rfl

/-! ## Whole files -/

/-- The bytes of one log record. -/
def walBytes (codec : JsonCodec) (format : SerializationFormat) (record : WALEntry) : Bytes :=
  match encodeWALEntry codec format record with
  | .ok data => data
  | .error _ => []

/-- The bytes of one snapshot entry. -/
def entryBytes (codec : JsonCodec) (format : SerializationFormat) (entry : Entry) : Bytes :=
  match encodeEntry codec format entry with
  | .ok data => data
  | .error _ => []

/-- A log of records written in one format, each of which reads back. -/
structure Logged (codec : JsonCodec) (format : SerializationFormat)
    (records : List WALEntry) (wal : Bytes) : Prop where
  bytes : wal = records.flatMap (walBytes codec format)
  encodes : ∀ record ∈ records, ∃ data, encodeWALEntry codec format record = .ok data
  fits : ∀ record ∈ records, WALFits format record
  valid : ∀ record ∈ records, validateWALEntry record = true

/-- A snapshot of entries written in one format, each of which reads back. -/
structure Written (codec : JsonCodec) (format : SerializationFormat)
    (entries : List Entry) (content : Bytes) : Prop where
  bytes : ∃ created, content =
    snapshotHeader codec format created ++ entries.flatMap (entryBytes codec format)
  encodes : ∀ entry ∈ entries, ∃ data, encodeEntry codec format entry = .ok data
  fits : ∀ entry ∈ entries, EntryFits format entry

/-- A load that reads a file of the given format in that format. -/
def ReadsAs (opts : Options) (format : SerializationFormat) : Prop :=
  opts.autoDetectMode = .enabled ∨ opts.serializerFormat = format

theorem chooseFormat_eq {opts : Options} {format : SerializationFormat}
    (reads : ReadsAs opts format) : chooseFormat opts (.ok format) = .ok format := by
  unfold chooseFormat
  rcases reads with enabled | same
  · rw [enabled]
  · cases opts.autoDetectMode with
    | enabled => rfl
    | disabled => rw [same]

section Files

variable {env : Externals} {format : SerializationFormat}

theorem encodeWALEntry_ne_nil (lawful : format = .json → env.json.Lawful) {record : WALEntry}
    {data : Bytes}
    (encoded : encodeWALEntry env.json format record = .ok data) (rest : Bytes) :
    data ++ rest ≠ [] ∧ detectWALFormat (data ++ rest) = .ok format := by
  cases format with
  | binary =>
    unfold encodeWALEntry encodeWALBinary at encoded
    cases accepted : sizeError record.key record.value with
    | some failure => simp [accepted] at encoded
    | none =>
      simp only [accepted, Except.ok.injEq] at encoded
      rw [← encoded, List.append_assoc]
      refine ⟨?_, detectMagic_binary "WAL" _ (by decide)⟩
      intro empty
      have lengths := congrArg List.length empty
      simp at lengths
  | json =>
    unfold encodeWALEntry encodeJSONLine at encoded
    cases marshalled : env.json.marshalWAL record with
    | none => simp [marshalled] at encoded
    | some line =>
      simp only [marshalled, Except.ok.injEq] at encoded
      rw [← encoded, List.append_assoc, List.singleton_append]
      exact ⟨by simp, detectMagic_json "WAL" rest
        ((lawful rfl).walLine record line marshalled) (by decide)⟩

/-- The bytes of the log grow by the encoding of the record. -/
theorem Logged.snoc {records : List WALEntry} {wal data : Bytes} {record : WALEntry}
    (logged : Logged env.json format records wal)
    (encoded : encodeWALEntry env.json format record = .ok data)
    (fits : WALFits format record) (valid : validateWALEntry record = true) :
    Logged env.json format (records ++ [record]) (wal ++ data) := by
  refine ⟨?_, ?_, ?_, ?_⟩
  · rw [List.flatMap_append, ← logged.bytes, List.flatMap_singleton, walBytes, encoded]
  · intro other member
    rcases List.mem_append.mp member with before | isLast
    · exact logged.encodes other before
    · rw [List.mem_singleton.mp isLast]
      exact ⟨data, encoded⟩
  · intro other member
    rcases List.mem_append.mp member with before | isLast
    · exact logged.fits other before
    · rw [List.mem_singleton.mp isLast]
      exact fits
  · intro other member
    rcases List.mem_append.mp member with before | isLast
    · exact logged.valid other before
    · rw [List.mem_singleton.mp isLast]
      exact valid

theorem logged_nil (codec : JsonCodec) (format : SerializationFormat) :
    Logged codec format [] [] :=
  ⟨rfl, List.forall_mem_nil _,
    List.forall_mem_nil _,
    List.forall_mem_nil _⟩

theorem decodeChecked_encoded (lawful : format = .json → env.json.Lawful) {record : WALEntry}
    {data : Bytes}
    (encoded : encodeWALEntry env.json format record = .ok data)
    (fits : WALFits format record) (valid : validateWALEntry record = true) (rest : Bytes) :
    decodeChecked env format (data ++ rest) = .ok (record, rest) := by
  rw [decodeChecked, decodeWALEntry_encoded lawful encoded fits rest]
  simp only [valid, if_true]

/-- A log of one format reads back. -/
theorem walEntries_logged (lawful : format = .json → env.json.Lawful) {opts : Options}
    {disk : Disk}
    {records : List WALEntry} (logged : Logged env.json format records disk.wal)
    (reads : ReadsAs opts format) : walEntries env opts disk = .ok records := by
  cases records with
  | nil =>
    have empty : disk.wal = [] := logged.bytes
    rw [walEntries, if_pos empty]
  | cons record rest =>
    obtain ⟨data, encoded⟩ := logged.encodes record List.mem_cons_self
    have walEq : disk.wal = data ++ rest.flatMap (walBytes env.json format) := by
      rw [logged.bytes, List.flatMap_cons, walBytes, encoded]
    obtain ⟨notEmpty, detected⟩ := encodeWALEntry_ne_nil lawful encoded
      (rest.flatMap (walBytes env.json format))
    rw [← walEq] at notEmpty detected
    have takes : ∀ other ∈ record :: rest, ∀ more,
        decodeChecked env format (walBytes env.json format other ++ more) =
          .ok (id other, more) := by
      intro other member more
      obtain ⟨bytes, otherEncoded⟩ := logged.encodes other member
      rw [walBytes, otherEncoded]
      exact decodeChecked_encoded lawful otherEncoded (logged.fits other member)
        (logged.valid other member) more
    have atEnd : decodeChecked env format [] = .error .eof := by
      rw [decodeChecked, decodeWALEntry_nil]
    have nonempty : ∀ other ∈ record :: rest, walBytes env.json format other ≠ [] := by
      intro other member
      obtain ⟨bytes, otherEncoded⟩ := logged.encodes other member
      have notNil := (encodeWALEntry_ne_nil lawful otherEncoded []).1
      rw [walBytes, otherEncoded]
      rwa [List.append_nil] at notNil
    have isEnd : ReadError.ends .eof = true := by decide
    have decoded := decodeAll_file atEnd isEnd takes nonempty
    rw [← logged.bytes, List.map_id] at decoded
    rw [walEntries, if_neg notEmpty, detected, chooseFormat_eq reads]
    dsimp only
    rw [decoded]

theorem encodeEntry_ne_nil {entry : Entry} {data : Bytes}
    (encoded : encodeEntry env.json format entry = .ok data) : data ≠ [] := by
  cases format with
  | binary =>
    unfold encodeEntry encodeEntryBinary at encoded
    cases accepted : sizeError entry.key entry.value with
    | some failure => simp [accepted] at encoded
    | none =>
      simp only [accepted, Except.ok.injEq] at encoded
      intro empty
      have lengths := congrArg List.length (encoded.trans empty)
      simp [putBlock] at lengths
  | json =>
    unfold encodeEntry encodeJSONLine at encoded
    cases marshalled : env.json.marshalEntry entry with
    | none => simp [marshalled] at encoded
    | some line =>
      simp only [marshalled, Except.ok.injEq] at encoded
      rw [← encoded]
      exact List.concat_ne_nil _ _

/-- A snapshot file reads back, and is detected. -/
theorem written_reads (lawful : format = .json → env.json.Lawful) {entries : List Entry}
    {content : Bytes}
    (written : Written env.json format entries content) :
    detectSnapshotFormat content = .ok format ∧
      ∃ body, readSnapshotHeader env.json format content = .ok body ∧
        decodeEntries env format body = .ok entries := by
  obtain ⟨created, bytes⟩ := written.bytes
  have takes : ∀ entry ∈ entries, ∀ more,
      decodeEntry env.json format (entryBytes env.json format entry ++ more) =
        .ok (id entry, more) := by
    intro entry member more
    obtain ⟨data, encoded⟩ := written.encodes entry member
    rw [entryBytes, encoded]
    exact decodeEntry_encoded lawful encoded (written.fits entry member) more
  have nonempty : ∀ entry ∈ entries, entryBytes env.json format entry ≠ [] := by
    intro entry member
    obtain ⟨data, encoded⟩ := written.encodes entry member
    rw [entryBytes, encoded]
    exact encodeEntry_ne_nil encoded
  have isEnd : ReadError.ends .eof = true := by decide
  have decoded := decodeAll_file decodeEntry_nil isEnd takes nonempty
  rw [List.map_id] at decoded
  refine ⟨?_, _, ?_, decoded⟩
  · rw [bytes]
    cases format with
    | binary =>
      rw [snapshotHeader, snapshotHeaderBinary, List.append_assoc]
      exact detectMagic_binary "snapshot" _ (by decide)
    | json =>
      rw [snapshotHeader, List.append_assoc, List.singleton_append]
      exact detectMagic_json "snapshot" _ ((lawful rfl).headerLine created) (by decide)
  · rw [bytes]
    exact readSnapshotHeader_written lawful created _

/-- The entries `Snapshot` encodes one after the other. -/
theorem encodeEntries_ok {entries : List Entry} {body : Bytes}
    (encoded : Store.encodeEntries env format entries = .ok body) :
    body = entries.flatMap (entryBytes env.json format) ∧
      ∀ entry ∈ entries, ∃ data, encodeEntry env.json format entry = .ok data := by
  induction entries generalizing body with
  | nil => exact ⟨(Except.ok.inj encoded).symm, List.forall_mem_nil _⟩
  | cons entry rest ih =>
    unfold Store.encodeEntries at encoded
    cases first : encodeEntry env.json format entry with
    | error failure => simp [first] at encoded
    | ok data =>
      rw [first] at encoded
      dsimp only at encoded
      cases others : Store.encodeEntries env format rest with
      | error failure => simp [others] at encoded
      | ok more =>
        rw [others] at encoded
        dsimp only at encoded
        obtain ⟨moreEq, restEncodes⟩ := ih others
        refine ⟨?_, ?_⟩
        · rw [← Except.ok.inj encoded, List.flatMap_cons, entryBytes, first, moreEq]
        · intro other member
          rcases List.mem_cons.mp member with rfl | inRest
          · exact ⟨data, first⟩
          · exact restEncodes other inRest

end Files

theorem validateWALEntry_checked (record : WALEntry) :
    validateWALEntry (Store.checked record) = true := by
  rw [validateWALEntry, beq_iff_eq]
  rfl

end Plumego.KvEngine
