/-
Module: Plumego.PubSub.Audit
Purpose: The audit log: entries with their hashes, the check of the chain, and calls of `Log`
  that run beside each other.
Trusted boundary: SHA-256, the text of an instant in UTC and the text of the data of an entry
  are parameters (`AuditTexts`). The counter is atomic, and so is each section under one of the
  locks. The log file, the queue of the asynchronous writer and the statistics are left out: they
  do not change what is kept in memory.
Main exports: AuditEntry, AuditTexts, calculateHash, verify, AuditConfig, Logger, Action, step,
  machine
-/
import Plumego.Go.Binary
import Plumego.Go.Numbers
import Plumego.Go.Time
import Plumego.Lib.Machine

namespace Plumego.PubSub.Audit

open Plumego.Go

/-- `AuditEntry`. -/
structure AuditEntry (Data : Type) where
  sequence : Nat
  timestamp : Time
  operation : Bytes
  topic : Bytes
  actor : Bytes
  source : Bytes
  messageID : Bytes
  data : Data
  success : Bool
  error : Bytes
  previousHash : Bytes
  hash : Bytes
deriving DecidableEq

/-- What the standard library contributes: SHA-256, `Format(time.RFC3339Nano)` of an instant in
UTC, and the `%v` text of the data. -/
structure AuditTexts (Data : Type) where
  sha256 : Bytes → Bytes
  timestampText : Time → Bytes
  dataText : Data → Bytes

/-- The `%t` format. -/
def boolText (value : Bool) : Bytes := if value then ascii "true" else ascii "false"

section Hashing

variable {Data : Type} (texts : AuditTexts Data)

/-- The bytes that `calculateHash` writes to the hash, in its order. -/
def hashedText (entry : AuditEntry Data) : Bytes :=
  decimalDigits entry.sequence ++ texts.timestampText entry.timestamp ++ entry.operation ++
    entry.topic ++ entry.actor ++ entry.source ++ entry.messageID ++ texts.dataText entry.data ++
    boolText entry.success ++ entry.error ++ entry.previousHash

/-- `calculateHash`. -/
def calculateHash (entry : AuditEntry Data) : Bytes :=
  hexEncodeToString (texts.sha256 (hashedText texts entry))

def errAuditClosed : GoError := .new "audit log is closed"

def errAuditCorrupted : GoError := .new "audit log corrupted - hash mismatch"

/-- The loop of `Verify`. -/
def verifyLoop : Bytes → List (AuditEntry Data) → Option GoError
  | _, [] => none
  | prevHash, entry :: entries =>
    if entry.previousHash ≠ prevHash then
      some (.wrapf "%w: sequence %d" [.int entry.sequence] errAuditCorrupted)
    else if entry.hash ≠ calculateHash texts entry then
      some (.wrapf "%w: sequence %d hash mismatch" [.int entry.sequence] errAuditCorrupted)
    else verifyLoop entry.hash entries

/-- The part of `AuditConfig` that decides what is kept in memory. -/
structure AuditConfig where
  verifyIntegrity : Bool
  operations : List Bytes
  topics : List Bytes

/-- `Verify`. -/
def verify (config : AuditConfig) (entries : List (AuditEntry Data)) : Option GoError :=
  if config.verifyIntegrity = false then none else verifyLoop texts [] entries

end Hashing

/-! ## Logging -/

/-- The number of entries that are kept in memory. -/
def maxInMemory : Nat := 10000

/-- `shouldAudit`. -/
def shouldAudit (config : AuditConfig) (operation topic : Bytes) : Bool :=
  (config.operations.isEmpty || config.operations.contains operation) &&
    (config.topics.isEmpty || topic.isEmpty || config.topics.contains topic)

/-- The arguments of `Log`; `error` is the text of the error, if there is one. -/
structure Request (Data : Type) where
  operation : Bytes
  topic : Bytes
  actor : Bytes
  source : Bytes
  data : Data
  success : Bool
  error : Option Bytes
deriving DecidableEq

/-- The logger, with the calls of `Log` that are in progress: those that have made their entry,
those that have read the last hash, and those that have written it, in the order of the
writes. -/
structure Logger (Data : Type) where
  entries : List (AuditEntry Data)
  nextSequence : Nat
  lastHash : Bytes
  closed : Bool
  numbered : List (AuditEntry Data)
  hashed : List (AuditEntry Data)
  written : List (AuditEntry Data)
deriving DecidableEq

/-- `NewAuditLogger`. -/
def Logger.initial {Data : Type} : Logger Data where
  entries := []
  nextSequence := 0
  lastHash := []
  closed := false
  numbered := []
  hashed := []
  written := []

/-- What can happen next; a call is named by its place in its list. -/
inductive Action (Data : Type) where
  /-- A call of `Log` makes its entry, or returns. -/
  | log (request : Request Data) (now : Time)
  /-- A call reads the last hash and computes its own. -/
  | readHash (call : Nat)
  /-- A call makes its hash the last. -/
  | writeHash (call : Nat)
  /-- A call stores its entry, and returns. -/
  | store (call : Nat)
  | close

section Steps

variable {Data : Type} (texts : AuditTexts Data) (config : AuditConfig)

/-- The entry that `Log` makes. -/
def newEntry (sequence : Nat) (request : Request Data) (now : Time) : AuditEntry Data where
  sequence := sequence
  timestamp := now
  operation := request.operation
  topic := request.topic
  actor := request.actor
  source := request.source
  messageID := []
  data := request.data
  success := request.success
  error := request.error.getD []
  previousHash := []
  hash := []

/-- An entry with its place in the chain. -/
def chain (lastHash : Bytes) (entry : AuditEntry Data) : AuditEntry Data :=
  let entry := { entry with previousHash := lastHash }
  { entry with hash := calculateHash texts entry }

/-- `storeInMemory`. -/
def storeInMemory (entries : List (AuditEntry Data)) (entry : AuditEntry Data) :
    List (AuditEntry Data) :=
  let entries := entries ++ [entry]
  if maxInMemory < entries.length then entries.drop (entries.length - maxInMemory) else entries

/-- One step of a call, with what `Log` returns at its first step. -/
def step (logger : Logger Data) : Action Data → Option (Logger Data × Option GoError)
  | .log request now =>
    if logger.closed then some (logger, some errAuditClosed)
    else if shouldAudit config request.operation request.topic = false then some (logger, none)
    else
      let sequence := logger.nextSequence + 1
      let entry := newEntry sequence request now
      if config.verifyIntegrity then
        some ({ logger with
          nextSequence := sequence, numbered := logger.numbered ++ [entry] }, none)
      else
        some ({ logger with
          nextSequence := sequence, written := logger.written ++ [entry] }, none)
  | .readHash call =>
    match logger.numbered[call]? with
    | none => none
    | some entry =>
      some ({ logger with
        numbered := logger.numbered.eraseIdx call
        hashed := logger.hashed ++ [chain texts logger.lastHash entry] }, none)
  | .writeHash call =>
    match logger.hashed[call]? with
    | none => none
    | some entry =>
      some ({ logger with
        hashed := logger.hashed.eraseIdx call
        lastHash := entry.hash
        written := logger.written ++ [entry] }, none)
  | .store call =>
    match logger.written[call]? with
    | none => none
    | some entry =>
      some ({ logger with
        written := logger.written.eraseIdx call
        entries := storeInMemory logger.entries entry }, none)
  | .close => some ({ logger with closed := true }, none)

def machine : Lib.Machine (Logger Data) (Action Data) (Option GoError) := ⟨step texts config⟩

end Steps

end Plumego.PubSub.Audit
